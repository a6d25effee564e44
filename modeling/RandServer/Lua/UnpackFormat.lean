import RandServer.Lua.UnpackLeaf

/-!
# Unpacking follows the format

A run of the decoder and the relations `Span` and `Visits` describe the same thing. A
result is the end of a span, a Lua error is a refused key that is visited, the stack
overflows where an item is visited that is nested too deep for it, and bytes behind the
input are looked at only in a visited record that sticks out of it. The fuel of the loops
suffices, since every item takes at least one byte.

`Follows` is the direction from runs to the format, by induction on the room. `Span.run`
and `Visits.run` are the other one, by induction on the derivation.
-/

namespace RandServer

variable {inp : Input} {metatables : List (List UInt8 × LuaMetatable)} {resCount : Int}
  {room room' : Nat → Nat}

/-! ## Spans -/

theorem Input.fixedEnd_some {len pos pos' : Nat} (h : inp.fixedEnd len pos = some pos') :
    pos' = pos + len ∧ pos' ≤ inp.size := by
  unfold Input.fixedEnd at h
  split_ifs at h with hle
  obtain rfl := Option.some.inj h
  exact ⟨rfl, hle⟩

theorem Input.stringEnd_le {width pos pos' : Nat} (h : inp.stringEnd width pos = some pos') :
    pos ≤ pos' := by
  obtain ⟨mid, hmid, hend⟩ := Option.bind_eq_some_iff.mp h
  have hwidth := (Input.fixedEnd_some hmid).1
  have hlen := (Input.fixedEnd_some hend).1
  omega

theorem leafEnd_le {ser : EnSer} {n pos pos' : Nat} {bad : Bool}
    (h : leafEnd inp metatables ser n pos = some (bad, pos')) : pos ≤ pos' := by
  have hfixed : ∀ {len : Nat} {b : Bool},
      (inp.fixedEnd len pos).map (b, ·) = some (bad, pos') → pos ≤ pos' := by
    intro len b h
    obtain ⟨mid, hmid, heq⟩ := Option.map_eq_some_iff.mp h
    cases heq
    rw [(Input.fixedEnd_some hmid).1]
    exact Nat.le_add_right _ _
  have hstring : ∀ {width : Nat},
      (inp.stringEnd width pos).map (false, ·) = some (bad, pos') → pos ≤ pos' := by
    intro width h
    obtain ⟨mid, hmid, heq⟩ := Option.map_eq_some_iff.mp h
    cases heq
    exact Input.stringEnd_le hmid
  cases ser with
  | serNone => cases h
  | serTableBegin => cases h
  | serTableEnd => cases h
  | serNil => cases h; exact Nat.le_refl _
  | serBoolFalse => cases h; exact Nat.le_refl _
  | serBoolTrue => cases h; exact Nat.le_refl _
  | serInt8 => exact hfixed h
  | serInt16 => exact hfixed h
  | serInt32 => exact hfixed h
  | serInt64 => exact hfixed h
  | serDouble => exact hfixed h
  | serLightuserData => exact hfixed h
  | serString8 => exact hstring h
  | serString16 => exact hstring h
  | serString32 => exact hstring h
  | serTableRef =>
      simp only [leafEnd] at h
      split_ifs at h
      exact hfixed h
  | serUserData =>
      simp only [leafEnd] at h
      split_ifs at h
      cases h
      simp only [Input.userdataEnd, Input.userdataSizeAt]
      omega

theorem Span.lt {shape : Shape} {n n' pos pos' : Nat} {bad : Bool}
    (h : Span inp metatables shape n pos bad n' pos') : pos < inp.size ∧ pos < pos' := by
  induction h with
  | leaf hlt hend => exact ⟨hlt, leafEnd_le hend⟩
  | table hlt _ _ ih => exact ⟨hlt, Nat.lt_trans (Nat.lt_succ_self _) ih.2⟩
  | tableEnd hlt _ => exact ⟨hlt, Nat.lt_succ_self _⟩
  | entry _ _ _ ih ih₁ ih₂ => exact ⟨ih.1, Nat.lt_trans ih.2 (Nat.lt_trans ih₁.2 ih₂.2)⟩

/-! ## Events -/

namespace Event

/-- The place of a call. -/
def place : Event → Option Nat
  | .call _ _ pos => some pos
  | .badKey => none

/-- A call for which there is no room. -/
def Deep (room : Nat → Nat) : Event → Prop
  | .call below depth _ => room below ≤ depth
  | .badKey => False

/-- An event makes a run stop. -/
def Causes (inp : Input) (metatables : List (List UInt8 × LuaMetatable)) (room : Nat → Nat)
    (e : Event) : Stop → Prop
  | .luaError => e.place = none
  | .segfault => ∃ pos, e.place = some pos ∧ SticksOut inp metatables inp.mem.length pos
  | .stackOverflow => e.Deep room
  | .error _ _ | .fuel => False

/-- Seen from outside, an event is at the same place and needs no more room. -/
structure Lifts (g : Event → Event) (room' room : Nat → Nat) : Prop where
  place : ∀ e, (g e).place = e.place
  deep : ∀ e, e.Deep room' → (g e).Deep room

theorem Lifts.refl (room : Nat → Nat) : Lifts (fun e => e) room room := ⟨fun _ => rfl, fun _ h => h⟩

theorem Lifts.inside (stack : Nat) :
    Lifts inside (fun _ => stack) (fun _ => stack + 1) := by
  constructor
  · rintro (_ | _) <;> rfl
  · rintro (_ | _) h
    · exact Nat.succ_le_succ h
    · exact h

theorem Lifts.above (room : Nat → Nat) (below : Nat) :
    Lifts (above below) (fun _ => room below) room := by
  constructor
  · rintro (_ | _) <;> rfl
  · rintro (_ | _) h
    · exact h
    · exact h

theorem Lifts.causes {g : Event → Event} (hg : Lifts g room' room) {e : Event} {stop : Stop}
    (h : e.Causes inp metatables room' stop) : (g e).Causes inp metatables room stop := by
  cases stop with
  | luaError => exact (hg.place e).trans h
  | segfault =>
      obtain ⟨pos, hpos, hout⟩ := h
      exact ⟨pos, (hg.place e).trans hpos, hout⟩
  | stackOverflow => exact hg.deep e h
  | error code info => exact h
  | fuel => exact h

end Event

/-! ## What a run keeps track of -/

/-- The run from `d₀` has come to `d`. It has looked behind the input only in a record it
has visited. -/
structure Track (inp : Input) (resCount : Int) (shape : Shape) (d₀ d : Deser) : Prop where
  metatables : d.lua.metatables = d₀.lua.metatables
  mono : inp.size < d₀.seen → inp.size < d.seen
  seen : d₀.seen ≤ inp.size → inp.size < d.seen → ∃ e pos,
    Visits inp d₀.lua.metatables resCount shape d₀.refs.length d₀.pos e ∧
      e.place = some pos ∧ SticksOut inp d₀.lua.metatables inp.size pos

namespace Track

variable {shape shape' : Shape} {d₀ d d' : Deser}

theorem same (hmetatables : d.lua.metatables = d₀.lua.metatables) (hseen : d.seen = d₀.seen) :
    Track inp resCount shape d₀ d :=
  ⟨hmetatables, fun hlt => by omega, fun hle hlt => by omega⟩

theorem congr (h : Track inp resCount shape d₀ d)
    (hmetatables : d'.lua.metatables = d.lua.metatables) (hseen : d'.seen = d.seen) :
    Track inp resCount shape d₀ d' := by
  refine ⟨hmetatables.trans h.metatables, ?_, ?_⟩
  · rw [hseen]
    exact h.mono
  · rw [hseen]
    exact h.seen

/-- The opcode of an item inside the input. -/
theorem read (h : d₀.pos < inp.size) : Track inp resCount shape d₀ (d₀.read 1) := by
  refine ⟨rfl, fun hlt => Nat.lt_of_lt_of_le hlt (Nat.le_max_left ..), fun hle hlt => ?_⟩
  have : (d₀.read 1).seen ≤ inp.size := Nat.max_le.mpr ⟨hle, h⟩
  omega

/-- Continue with a part of the input whose events are events of the whole. -/
theorem trans {g : Event → Event} (h : Track inp resCount shape d₀ d)
    (h' : Track inp resCount shape' d d') (hg : ∀ e, (g e).place = e.place)
    (hlift : ∀ e, Visits inp d₀.lua.metatables resCount shape' d.refs.length d.pos e →
      Visits inp d₀.lua.metatables resCount shape d₀.refs.length d₀.pos (g e)) :
    Track inp resCount shape d₀ d' := by
  refine ⟨h'.metatables.trans h.metatables, h'.mono ∘ h.mono, fun hle hlt => ?_⟩
  by_cases hmid : d.seen ≤ inp.size
  · obtain ⟨e, pos, hvisit, hpos, hout⟩ := h'.seen hmid hlt
    rw [h.metatables] at hvisit hout
    exact ⟨g e, pos, hlift e hvisit, (hg e).trans hpos, hout⟩
  · exact h.seen hle (Nat.lt_of_not_le hmid)

end Track

/-- A run from `d` agrees with the format: what it returns meets `ok`, and if it stops
without a code, an event has made it stop. -/
structure Follows (inp : Input) (resCount : Int) (room : Nat → Nat) (shape : Shape) (d : Deser)
    {α : Type} (ok : α → Deser → Prop) (r : EStateM.Result Stop Deser α) : Prop where
  ok : ∀ a d', r = .ok a d' → ok a d'
  stop : ∀ stop d', r = .error stop d' → (∃ code info, stop = .error code info) ∨
    ∃ e, Visits inp d.lua.metatables resCount shape d.refs.length d.pos e ∧
      e.Causes inp d.lua.metatables room stop
  track : Track inp resCount shape d (finalState r)

namespace Follows

variable {α β : Type} {shape shape' : Shape} {d d' : Deser} {ok : α → Deser → Prop}
  {ok' : β → Deser → Prop} {r : EStateM.Result Stop Deser α} {g : Event → Event}

theorem of_ok {a : α} (hr : r = .ok a d') (hok : ok a d') (htrack : Track inp resCount shape d d') :
    Follows inp resCount room shape d ok r := by
  subst hr
  refine ⟨?_, nofun, htrack⟩
  rintro a' d'' heq
  cases heq
  exact hok

/-- An error code. -/
theorem of_error {code : EnError} {info : Int} (hr : r = .error (.error code info) d')
    (htrack : Track inp resCount shape d d') : Follows inp resCount room shape d ok r := by
  subst hr
  refine ⟨nofun, ?_, htrack⟩
  rintro stop d'' heq
  cases heq
  exact .inl ⟨code, info, rfl⟩

/-- An event that stops the run. -/
theorem of_event {stop : Stop} {e : Event} (hr : r = .error stop d')
    (hvisit : Visits inp d.lua.metatables resCount shape d.refs.length d.pos e)
    (hcause : e.Causes inp d.lua.metatables room stop) (htrack : Track inp resCount shape d d') :
    Follows inp resCount room shape d ok r := by
  subst hr
  refine ⟨nofun, ?_, htrack⟩
  rintro stop' d'' heq
  cases heq
  exact .inr ⟨e, hvisit, hcause⟩

/-- What stops a run over a part of the input stops the whole run. -/
theorem lift_stop {d₁ : Deser} {r' : EStateM.Result Stop Deser β} {stop : Stop}
    (h : Follows inp resCount room' shape' d₁ ok' r') (hr' : r' = .error stop d')
    (htrack : Track inp resCount shape d d₁) (hg : Event.Lifts g room' room)
    (hlift : ∀ e, Visits inp d.lua.metatables resCount shape' d₁.refs.length d₁.pos e →
      Visits inp d.lua.metatables resCount shape d.refs.length d.pos (g e)) :
    (∃ code info, stop = .error code info) ∨
      ∃ e, Visits inp d.lua.metatables resCount shape d.refs.length d.pos e ∧
        e.Causes inp d.lua.metatables room stop := by
  refine (h.stop stop d' hr').imp_right ?_
  rintro ⟨e, hvisit, hcause⟩
  rw [htrack.metatables] at hvisit hcause
  exact ⟨g e, hlift e hvisit, hg.causes hcause⟩

/-- An error in a part of the input ends the run. -/
theorem error {d₁ : Deser} {r' : EStateM.Result Stop Deser β} {stop : Stop}
    (h : Follows inp resCount room' shape' d₁ ok' r') (hr' : r' = .error stop d')
    (hr : r = .error stop d') (htrack : Track inp resCount shape d d₁)
    (hg : Event.Lifts g room' room)
    (hlift : ∀ e, Visits inp d.lua.metatables resCount shape' d₁.refs.length d₁.pos e →
      Visits inp d.lua.metatables resCount shape d.refs.length d.pos (g e)) :
    Follows inp resCount room shape d ok r := by
  have hstop := h.lift_stop hr' htrack hg hlift
  subst hr hr'
  refine ⟨nofun, ?_, htrack.trans h.track hg.place hlift⟩
  rintro stop' d'' heq
  cases heq
  exact hstop

/-- The rest of the run is a run over a part of the input. -/
theorem lift {d₁ : Deser} {ok' : α → Deser → Prop} (h : Follows inp resCount room' shape' d₁ ok r)
    (htrack : Track inp resCount shape d d₁) (hok : ∀ a d', ok a d' → ok' a d')
    (hg : Event.Lifts g room' room)
    (hlift : ∀ e, Visits inp d.lua.metatables resCount shape' d₁.refs.length d₁.pos e →
      Visits inp d.lua.metatables resCount shape d.refs.length d.pos (g e)) :
    Follows inp resCount room shape d ok' r :=
  ⟨fun a d' hr => hok a d' (h.ok a d' hr), fun _ _ hr => h.lift_stop hr htrack hg hlift,
    htrack.trans h.track hg.place hlift⟩

end Follows

/-! ## Runs -/

/-- What `unpack_obj` returns: the value of an item, or the end of a table. -/
def ItemOk (inp : Input) (d : Deser) : EnSer × Option LuaValue → Deser → Prop
  | (ser, some v), d' => ser ≠ .serTableEnd ∧ Span inp d.lua.metatables .item d.refs.length d.pos
      (luaKey v).isNone d'.refs.length d'.pos
  | (ser, none), d' => ser = .serTableEnd → d.pos < inp.size ∧
      inp.opcode d.pos = .serTableEnd ∧ d'.pos = d.pos + 1 ∧ d'.refs = d.refs

theorem unpackEntries_follows {unpack : Decoder (EnSer × Option LuaValue)} {id fuel : Nat}
    (hunpack : ∀ d, Follows inp resCount room .item d (ItemOk inp d) (unpack d))
    {d : Deser} (hfuel : inp.size - d.pos < fuel) :
    Follows inp resCount room .entries d (fun _ d' => Span inp d.lua.metatables .entries
      d.refs.length d.pos false d'.refs.length d'.pos) (unpackEntries unpack id fuel d) := by
  induction fuel generalizing d with
  | zero => exact absurd hfuel (Nat.not_lt_zero _)
  | succ fuel ih =>
      have hfirst := hunpack d
      cases hrun : unpack d with
      | error stop d₁ =>
          exact hfirst.error hrun (unpackEntries_error hrun) (.same rfl rfl) (.refl room)
            fun _ h => .key h
      | ok res d₁ =>
          obtain ⟨ser, key⟩ := res
          have hok := hfirst.ok _ _ hrun
          have htrack : Track inp resCount .entries d d₁ := by
            have hpart := hfirst.track
            rw [hrun] at hpart
            exact (Track.same rfl rfl).trans hpart (fun _ => rfl) fun _ h => .key h
          cases key with
          | none =>
              by_cases hser : ser = .serTableEnd
              · obtain ⟨hlt, hop, hpos, hrefs⟩ := hok hser
                subst hser
                refine .of_ok (unpackEntries_tableEnd hrun) ?_ htrack
                rw [hpos, hrefs]
                exact .tableEnd hlt hop
              · exact .of_error (unpackEntries_noKey hrun hser) htrack
          | some key =>
              obtain ⟨hser, hspan⟩ := hok
              have hlt := hspan.lt
              have hsecond := hunpack d₁
              have hvisit : ∀ e,
                  Visits inp d.lua.metatables resCount .item d₁.refs.length d₁.pos e →
                  Visits inp d.lua.metatables resCount .entries d.refs.length d.pos e :=
                fun _ h => .value hspan h
              cases hrun' : unpack d₁ with
              | error stop d₂ =>
                  exact hsecond.error hrun' (unpackEntries_value_error hrun hser hrun') htrack
                    (.refl room) hvisit
              | ok res d₂ =>
                  obtain ⟨ser', value⟩ := res
                  have hok := hsecond.ok _ _ hrun'
                  have htrack' : Track inp resCount .entries d d₂ := by
                    have hpart := hsecond.track
                    rw [hrun'] at hpart
                    exact htrack.trans hpart (fun _ => rfl) hvisit
                  cases value with
                  | none => exact .of_error (unpackEntries_noValue hrun hser hrun') htrack'
                  | some value =>
                      obtain ⟨-, hspan'⟩ := hok
                      rw [htrack.metatables] at hspan'
                      have hlt' := hspan'.lt
                      have hset : unpackEntries unpack id (fuel + 1) d =
                          (do rawset id key value; unpackEntries unpack id fuel : Decoder Unit) _ :=
                        unpackEntries_value hrun hser hrun'
                      cases hkey : luaKey key with
                      | none =>
                          rw [hkey] at hspan
                          rw [StateError.bind_error (rawset_error hkey)] at hset
                          exact .of_event hset (.badKey hspan hspan') rfl htrack'
                      | some k =>
                          rw [hkey] at hspan
                          obtain ⟨t, ht⟩ := LuaTable.rawset_isSome (congrArg Option.isNone hkey)
                            ((d₂.lua.tables[id]?).getD .empty) value
                          rw [StateError.bind_ok (rawset_ok ht)] at hset
                          rw [hset]
                          refine (ih (d := d₂.setTable id t) ?_).lift (htrack'.congr rfl rfl) ?_
                            (.refl room) fun _ h => .rest hspan hspan' h
                          · show inp.size - d₂.pos < fuel
                            omega
                          · intro _ d' hrest
                            rw [show (d₂.setTable id t).lua.metatables = d.lua.metatables
                              from htrack'.metatables] at hrest
                            exact .entry hspan hspan' hrest

theorem unpackObj_follows {stack : Nat} {d : Deser} :
    Follows inp resCount (fun _ => stack) .item d (ItemOk inp d) (unpackObj inp stack d) := by
  induction stack generalizing d with
  | zero => exact .of_event rfl .here (Nat.le_refl 0) (.same rfl rfl)
  | succ stack ih =>
      by_cases hpos : inp.size ≤ d.pos
      · exact .of_ok (unpackObj_end hpos) nofun (.same rfl rfl)
      have hlt := Nat.lt_of_not_le hpos
      by_cases hbegin : inp.opcode d.pos = .serTableBegin
      · have hstart : Track inp resCount .item d (d.read 1).withTable :=
          (Track.read hlt).congr rfl rfl
        have hlength : (d.read 1).withTable.refs.length = d.refs.length + 1 :=
          List.length_append
        have hvisit : ∀ e, Visits inp d.lua.metatables resCount .entries
            (d.read 1).withTable.refs.length (d.read 1).withTable.pos e →
              Visits inp d.lua.metatables resCount .item d.refs.length d.pos e.inside := by
          intro e h
          rw [hlength] at h
          exact .table hlt hbegin h
        have hbody := @unpackEntries_follows inp resCount _ (unpackObj inp stack)
          d.lua.tables.length (inp.size + 1) (fun _ => ih) (d.read 1).withTable
          (show inp.size - (d.pos + 1) < inp.size + 1 by omega)
        rw [unpackObj_table hlt hbegin]
        cases hrun : unpackEntries (unpackObj inp stack) d.lua.tables.length (inp.size + 1)
          (d.read 1).withTable with
        | error stop d' =>
            exact hbody.error hrun (StateError.bind_error hrun) hstart (.inside stack) hvisit
        | ok _ d' =>
            have hspan := hbody.ok _ _ hrun
            rw [hlength] at hspan
            have hpart := hbody.track
            rw [hrun] at hpart
            exact .of_ok (StateError.bind_ok hrun) ⟨nofun, .table hlt hbegin hspan⟩
              (hstart.trans hpart (Event.Lifts.inside stack).place hvisit)
      by_cases hend : inp.opcode d.pos = .serTableEnd
      · exact .of_ok (unpackObj_tableEnd hlt hend) (fun _ => ⟨hlt, hend, rfl, rfl⟩) (.read hlt)
      cases hleaf : unpackLeaf inp (inp.opcode d.pos) with
      | none =>
          obtain ⟨info, hrun⟩ := @unpackObj_error inp d stack hlt hbegin hend hleaf
          exact .of_error hrun (.read hlt)
      | some leaf =>
          have hres := unpackLeaf_result (d := d.read 1) hleaf
          have htrack : (d.read 1).Frame (finalState (leaf (d.read 1))) →
              Track inp resCount .item d (finalState (leaf (d.read 1))) := by
            intro hframe
            have hread : (d.read 1).seen ≤ inp.size ↔ d.seen ≤ inp.size :=
              ⟨fun h => Nat.le_trans (Nat.le_max_left ..) h, fun h => Nat.max_le.mpr ⟨h, hlt⟩⟩
            refine ⟨hframe.metatables, fun h => ?_, fun hle h => ?_⟩
            · by_contra hnot
              exact Nat.not_le_of_lt h (hread.mp (hres.seen.mp (Nat.le_of_not_lt hnot)).1)
            · refine ⟨_, d.pos, .here, rfl, ?_⟩
              by_contra hnot
              refine Nat.not_le_of_lt h (hres.seen.mpr ⟨hread.mpr hle, fun hser hin => ?_⟩)
              by_contra hout
              exact hnot ⟨hin, hser, hout⟩
          rw [unpackObj_leaf hlt hleaf]
          cases hrun : leaf (d.read 1) with
          | error stop d' =>
              obtain ⟨hframe, hstop, hnone⟩ := hres.error _ _ hrun
              rw [hrun] at htrack
              have hrun' := StateError.bind_error (f := fun v =>
                (pure (inp.opcode d.pos, some v) : Decoder (EnSer × Option LuaValue))) hrun
              by_cases hrecord : inp.opcode d.pos = .serUserData ∧ (d.read 1).pos + 8 ≤ inp.size
              · obtain rfl := hstop.segfault hrecord
                refine .of_event hrun' .here ⟨d.pos, rfl, hrecord.2, hrecord.1, fun hin => ?_⟩
                  (htrack hframe)
                rw [hrecord.1, leafEnd, if_pos ⟨hrecord.2, hin⟩] at hnone
                cases hnone
              · obtain ⟨code, info, rfl⟩ := hstop.error hrecord
                exact .of_error hrun' (htrack hframe)
          | ok v d' =>
              obtain ⟨hframe, hleafEnd⟩ := hres.ok _ _ hrun
              rw [hrun] at htrack
              refine .of_ok (StateError.bind_ok hrun) ⟨hend, ?_⟩ (htrack hframe)
              rw [hframe.refs]
              exact .leaf hlt hleafEnd

theorem unpackValues_follows {fuel : Nat} {values : List LuaValue} {d : Deser}
    (hfuel : inp.size - d.pos < fuel) :
    Follows inp resCount room (.values values.length) d (fun _ _ => True)
      (unpackValues inp room resCount fuel values d) := by
  induction fuel generalizing values d with
  | zero => exact absurd hfuel (Nat.not_lt_zero _)
  | succ fuel ih =>
      by_cases hpos : inp.size ≤ d.pos
      · exact .of_ok (unpackValues_end hpos) trivial (.same rfl rfl)
      have hlt := Nat.lt_of_not_le hpos
      have hfirst := @unpackObj_follows inp resCount (room values.length) d
      have hvisit : ∀ e, Visits inp d.lua.metatables resCount .item d.refs.length d.pos e →
          Visits inp d.lua.metatables resCount (.values values.length) d.refs.length d.pos
            (e.above values.length) := fun _ h => .first hlt h
      have hlift := Event.Lifts.above room values.length
      cases hrun : unpackObj inp (room values.length) d with
      | error stop d₁ =>
          exact hfirst.error hrun (unpackValues_error hlt hrun) (.same rfl rfl) hlift hvisit
      | ok res d₁ =>
          obtain ⟨ser, value⟩ := res
          have hok := hfirst.ok _ _ hrun
          have htrack : Track inp resCount (.values values.length) d d₁ := by
            have hpart := hfirst.track
            rw [hrun] at hpart
            exact (Track.same rfl rfl).trans hpart hlift.place hvisit
          cases value with
          | none => exact .of_error (unpackValues_none hlt hrun) htrack
          | some value =>
              obtain ⟨-, hspan⟩ := hok
              have hend := hspan.lt
              rw [unpackValues_value hlt hrun]
              split_ifs with hcount
              · exact .of_ok rfl trivial htrack
              · have hrest := @ih (values ++ [value]) d₁ (by omega)
                rw [List.length_append, List.length_singleton] at hrest
                exact hrest.lift htrack (fun _ _ h => h) (.refl room)
                  fun _ h => .next hspan hcount h

/-! ## Once behind the input -/

/-- A run that has looked behind the input has still done so at its end. -/
def Keeps (inp : Input) {α : Type} (x : Decoder α) : Prop :=
  ∀ d, inp.size < d.seen → inp.size < (finalState (x d)).seen

namespace Keeps

variable {α β : Type} {x : Decoder α} {f : α → Decoder β}

theorem bind (hx : Keeps inp x) (hf : ∀ a, Keeps inp (f a)) : Keeps inp (x >>= f) := by
  intro d hd
  have hmid := hx d hd
  cases hrun : x d with
  | ok a d' =>
      rw [hrun] at hmid
      rw [StateError.bind_ok hrun]
      exact hf a d' hmid
  | error e d' =>
      rw [hrun] at hmid
      rw [StateError.bind_error hrun]
      exact hmid

theorem pure (a : α) : Keeps inp (pure a : Decoder α) := fun _ hd => hd

theorem throw (e : Stop) : Keeps inp (throw e : Decoder α) := fun _ hd => hd

theorem get : Keeps inp (get : Decoder Deser) := fun _ hd => hd

theorem byte : Keeps inp inp.byte := by
  intro d hd
  by_cases h : d.pos + 1 ≤ inp.mem.length
  · rw [Input.byte_ok h]
    exact Nat.lt_of_lt_of_le hd (Nat.le_max_left ..)
  · rw [Input.byte_error (Nat.lt_of_not_le h)]
    exact Nat.lt_of_lt_of_le hd (Nat.le_max_left ..)

theorem leaf {ser : EnSer} {leaf : Decoder LuaValue} (hleaf : unpackLeaf inp ser = some leaf) :
    Keeps inp leaf := by
  intro d hd
  by_contra hnot
  have hseen := (unpackLeaf_result (d := d) hleaf).seen.mp (Nat.le_of_not_lt hnot)
  exact Nat.not_le_of_lt hd hseen.1

theorem rawset (id : Nat) (key value : LuaValue) : Keeps inp (rawset id key value) := by
  refine get.bind fun d => ?_
  split
  · exact throw _
  · exact fun _ hd => hd

variable {unpack : Decoder (EnSer × Option LuaValue)}

theorem afterKey (hunpack : Keeps inp unpack) {id fuel : Nat} {key : LuaValue}
    (hrest : Keeps inp (unpackEntries unpack id fuel)) :
    Keeps inp (do
      let value ← unpack
      match value with
      | (_, none) => MonadExcept.throw (Stop.error .unpackTableNoValueBuff 0)
      | (_, some value) =>
          RandServer.rawset id key value
          unpackEntries unpack id fuel : Decoder Unit) := by
  refine hunpack.bind fun res => ?_
  split
  · exact throw _
  · exact (rawset _ _ _).bind fun _ => hrest

theorem unpackEntries (hunpack : Keeps inp unpack) (id fuel : Nat) :
    Keeps inp (unpackEntries unpack id fuel) := by
  induction fuel with
  | zero => exact throw _
  | succ fuel ih =>
      refine hunpack.bind fun res => ?_
      split
      · exact pure _
      · exact throw _
      · exact afterKey hunpack ih

theorem unpackObj (fuel : Nat) : Keeps inp (unpackObj inp fuel) := by
  induction fuel with
  | zero => exact throw _
  | succ fuel ih =>
      refine get.bind fun d => ?_
      split_ifs
      · exact pure _
      · refine byte.bind fun op => ?_
        split
        · have hnew : Keeps inp newTable := fun _ hd => hd
          exact hnew.bind fun id => (unpackEntries ih id _).bind fun _ => pure _
        · exact pure _
        · split
          · exact (leaf ‹_›).bind fun _ => pure _
          · exact throw _

theorem unpackValues (resCount : Int) (fuel : Nat) (values : List LuaValue) :
    Keeps inp (unpackValues inp room resCount fuel values) := by
  induction fuel generalizing values with
  | zero => exact throw _
  | succ fuel ih =>
      refine get.bind fun d => ?_
      split_ifs
      · exact pure _
      · refine (unpackObj _).bind fun res => ?_
        split
        · exact throw _
        · split_ifs
          · exact pure _
          · exact ih _

end Keeps

/-! ## From the format to runs -/

/-- The decoder stands at `pos`, and `n` tables have begun. -/
structure Deser.At (metatables : List (List UInt8 × LuaMetatable)) (n pos : Nat) (d : Deser) :
    Prop where
  pos : d.pos = pos
  refs : d.refs.length = n
  metatables : d.lua.metatables = metatables

/-- A run that leaves the stack. -/
def StackOverflows {α : Type} (r : EStateM.Result Stop Deser α) : Prop :=
  ∃ d, r = .error .stackOverflow d

theorem StackOverflows.bind {α β : Type} {x : Decoder α} {d : Deser} (h : StackOverflows (x d))
    (f : α → Decoder β) : StackOverflows ((x >>= f) d) := by
  obtain ⟨d', hrun⟩ := h
  exact ⟨d', StateError.bind_error hrun⟩

/-- What a run over a span returns, if there is room for it. -/
def SpanRun (inp : Input) (metatables : List (List UInt8 × LuaMetatable)) :
    Shape → Nat → Nat → Bool → Nat → Nat → Prop
  | .item, n, pos, bad, n', pos' => ∀ stack d, Deser.At metatables n pos d →
      StackOverflows (unpackObj inp stack d) ∨
        ∃ ser v d', unpackObj inp stack d = .ok (ser, some v) d' ∧
        ser ≠ .serTableEnd ∧ (luaKey v).isNone = bad ∧ Deser.At metatables n' pos' d'
  | .entries, n, pos, _, n', pos' => ∀ stack fuel id d, Deser.At metatables n pos d →
      inp.size - pos < fuel → StackOverflows (unpackEntries (unpackObj inp stack) id fuel d) ∨
        ∃ d', unpackEntries (unpackObj inp stack) id fuel d = .ok () d' ∧
          Deser.At metatables n' pos' d'
  | .values _, _, _, _, _, _ => True

section Entries

variable {stack : Nat} {id fuel : Nat} {d d₁ : Deser} {ser : EnSer} {key : LuaValue}

theorem unpackEntries_overflows (h : StackOverflows (unpackObj inp stack d)) :
    StackOverflows (unpackEntries (unpackObj inp stack) id (fuel + 1) d) := h.bind _

theorem unpackEntries_value_overflows (hrun : unpackObj inp stack d = .ok (ser, some key) d₁)
    (hser : ser ≠ .serTableEnd) (h : StackOverflows (unpackObj inp stack d₁)) :
    StackOverflows (unpackEntries (unpackObj inp stack) id (fuel + 1) d) := by
  rw [unpackEntries_key hrun hser]
  exact h.bind _

end Entries

theorem Span.run {shape : Shape} {n n' pos pos' : Nat} {bad : Bool}
    (h : Span inp metatables shape n pos bad n' pos') :
    SpanRun inp metatables shape n pos bad n' pos' := by
  induction h with
  | @leaf n pos pos' bad hlt hend =>
      rintro stack d ⟨rfl, rfl, rfl⟩
      cases stack with
      | zero => exact .inl ⟨d, rfl⟩
      | succ stack =>
          cases hleaf : unpackLeaf inp (inp.opcode d.pos) with
          | none =>
              rw [unpackLeaf_eq_none hleaf] at hend
              cases hend
          | some leaf =>
              have hser : inp.opcode d.pos ≠ .serTableEnd := by
                intro hser
                rw [hser] at hleaf
                cases hleaf
              have hres := unpackLeaf_result (d := d.read 1) hleaf
              rw [unpackObj_leaf hlt hleaf]
              cases hrun : leaf (d.read 1) with
              | error stop d' =>
                  have hnone := hend.symm.trans (hres.error _ _ hrun).2.2
                  cases hnone
              | ok v d' =>
                  obtain ⟨hframe, hsome⟩ := hres.ok _ _ hrun
                  have hsame := hend.symm.trans hsome
                  cases hsame
                  exact .inr ⟨_, v, d', StateError.bind_ok hrun, hser, rfl, rfl,
                    congrArg List.length hframe.refs, hframe.metatables⟩
  | @table n n' pos pos' hlt hop _ ih =>
      rintro stack d ⟨rfl, rfl, rfl⟩
      cases stack with
      | zero => exact .inl ⟨d, rfl⟩
      | succ stack =>
          rw [unpackObj_table hlt hop]
          rcases ih stack (inp.size + 1) d.lua.tables.length (d.read 1).withTable
            ⟨rfl, List.length_append, rfl⟩ (by omega) with hover | ⟨d', hrun, hat⟩
          · exact .inl (hover.bind _)
          · exact .inr ⟨.serTableBegin, .table d.lua.tables.length, d', StateError.bind_ok hrun,
              nofun, rfl, hat⟩
  | @tableEnd n pos hlt hop =>
      rintro stack fuel id d ⟨rfl, rfl, rfl⟩ hfuel
      obtain ⟨fuel, rfl⟩ := Nat.exists_eq_add_one_of_ne_zero (Nat.ne_zero_of_lt hfuel)
      cases stack with
      | zero => exact .inl ⟨d, rfl⟩
      | succ stack =>
          exact .inr ⟨d.read 1, unpackEntries_tableEnd (unpackObj_tableEnd hlt hop), rfl, rfl, rfl⟩
  | @entry n n₁ n₂ n' pos pos₁ pos₂ pos' bad hkey hvalue hrest ihkey ihvalue ihrest =>
      intro stack fuel id d hat hfuel
      have hlt := hkey.lt
      have hlt' := hvalue.lt
      obtain ⟨fuel, rfl⟩ := Nat.exists_eq_add_one_of_ne_zero (Nat.ne_zero_of_lt hfuel)
      rcases ihkey stack d hat with hover | ⟨ser, key, d₁, hrun, hser, hgood, hat₁⟩
      · exact .inl (unpackEntries_overflows hover)
      rcases ihvalue stack d₁ hat₁ with hover | ⟨ser', value, d₂, hrun', -, -, hat₂⟩
      · exact .inl (unpackEntries_value_overflows hrun hser hover)
      obtain ⟨t, ht⟩ := LuaTable.rawset_isSome hgood ((d₂.lua.tables[id]?).getD .empty) value
      rw [unpackEntries_value hrun hser hrun', StateError.bind_ok (rawset_ok ht)]
      exact ihrest stack fuel id (d₂.setTable id t) ⟨hat₂.pos, hat₂.refs, hat₂.metatables⟩
        (by omega)

/-- What a run does that comes across an event, if there is room up to there. -/
def Effect (inp : Input) (metatables : List (List UInt8 × LuaMetatable)) (room : Nat → Nat)
    (e : Event) {α : Type} (r : EStateM.Result Stop Deser α) : Prop :=
  StackOverflows r ∨ ¬ e.Deep room ∧ (e = .badKey → ∃ d', r = .error .luaError d') ∧
    ∀ pos, e.place = some pos →
      (SticksOut inp metatables inp.size pos → inp.size < (finalState r).seen) ∧
      (SticksOut inp metatables inp.mem.length pos → ∃ d', r = .error .segfault d')

theorem Effect.bind {α β : Type} {x : Decoder α} {f : α → Decoder β} {d : Deser} {e : Event}
    (h : Effect inp metatables room e (x d)) (hf : ∀ a, Keeps inp (f a)) :
    Effect inp metatables room e ((x >>= f) d) := by
  rcases h with hover | ⟨hdeep, hbad, hplace⟩
  · exact .inl (hover.bind f)
  have herror : ∀ {stop : Stop}, (∃ d', x d = .error stop d') →
      ∃ d', (x >>= f) d = .error stop d' := by
    rintro stop ⟨d', hrun⟩
    exact ⟨d', StateError.bind_error hrun⟩
  refine .inr ⟨hdeep, fun heq => herror (hbad heq),
    fun pos hpos => ⟨fun hout => ?_, fun hout => ?_⟩⟩
  · have hmid := (hplace pos hpos).1 hout
    cases hrun : x d with
    | ok a d' =>
        rw [hrun] at hmid
        rw [StateError.bind_ok hrun]
        exact hf a d' hmid
    | error stop d' =>
        rw [hrun] at hmid
        rw [StateError.bind_error hrun]
        exact hmid
  · exact herror ((hplace pos hpos).2 hout)

/-- Seen from outside, an event has the same effect. -/
theorem Effect.lift {α : Type} {g : Event → Event} {e : Event} {r : EStateM.Result Stop Deser α}
    (h : Effect inp metatables room' e r) (hplace : (g e).place = e.place)
    (hdeep : (g e).Deep room → e.Deep room') : Effect inp metatables room (g e) r := by
  refine h.imp_right fun ⟨hroom, hbad, hall⟩ => ⟨fun h => hroom (hdeep h), fun heq => ?_, ?_⟩
  · cases e with
    | badKey => exact hbad rfl
    | call below depth pos =>
        rw [heq] at hplace
        cases hplace
  · rw [hplace]
    exact hall

theorem Effect.inside {α : Type} {stack : Nat} {e : Event} {r : EStateM.Result Stop Deser α}
    (h : Effect inp metatables (fun _ => stack) e r) :
    Effect inp metatables (fun _ => stack + 1) e.inside r := by
  refine h.lift ((Event.Lifts.inside stack).place e) fun hdeep => ?_
  cases e with
  | call below depth pos => exact Nat.le_of_succ_le_succ hdeep
  | badKey => exact hdeep

theorem Effect.above {α : Type} {below : Nat} {e : Event} {r : EStateM.Result Stop Deser α}
    (h : Effect inp metatables (fun _ => room below) e r) :
    Effect inp metatables room (e.above below) r := by
  refine h.lift ((Event.Lifts.above room below).place e) fun hdeep => ?_
  cases e with
  | call below' depth pos => exact hdeep
  | badKey => exact hdeep

/-- What a run does whose input has an event. -/
def VisitsRun (inp : Input) (metatables : List (List UInt8 × LuaMetatable)) (resCount : Int) :
    Shape → Nat → Nat → Event → Prop
  | .item, n, pos, e => ∀ stack d, Deser.At metatables n pos d →
      Effect inp metatables (fun _ => stack) e (unpackObj inp stack d)
  | .entries, n, pos, e => ∀ stack fuel id d, Deser.At metatables n pos d →
      inp.size - pos < fuel →
        Effect inp metatables (fun _ => stack) e (unpackEntries (unpackObj inp stack) id fuel d)
  | .values count, n, pos, e => ∀ room fuel values d, Deser.At metatables n pos d →
      inp.size - pos < fuel → values.length = count →
        Effect inp metatables room e (unpackValues inp room resCount fuel values d)

/-- A call has an effect at its own place. -/
theorem unpackObj_here (stack : Nat) (d : Deser) :
    Effect inp d.lua.metatables (fun _ => stack) (.call 0 0 d.pos) (unpackObj inp stack d) := by
  cases stack with
  | zero => exact .inl ⟨d, rfl⟩
  | succ stack =>
      refine .inr ⟨Nat.not_succ_le_zero stack, nofun, ?_⟩
      rintro pos heq
      obtain rfl := Option.some.inj heq
      have hleaf : ∀ {limit : Nat}, SticksOut inp d.lua.metatables limit d.pos →
          d.pos < inp.size ∧ unpackLeaf inp (inp.opcode d.pos) = some (unpackUserdata inp) := by
        rintro limit ⟨hin, hop, -⟩
        rw [hop]
        exact ⟨by omega, rfl⟩
      refine ⟨fun hout => ?_, fun hout => ?_⟩
      · obtain ⟨hlt, hleaf⟩ := hleaf hout
        have hseen : inp.size < (finalState (unpackUserdata inp (d.read 1))).seen := by
          by_contra hnot
          have hres := (unpackLeaf_result (d := d.read 1) hleaf).seen.mp (Nat.le_of_not_lt hnot)
          exact hout.2.2 (hres.2 hout.2.1 hout.1)
        rw [unpackObj_leaf hlt hleaf]
        cases hrun : unpackUserdata inp (d.read 1) with
        | ok v d' =>
            rw [hrun] at hseen
            rw [StateError.bind_ok hrun]
            exact hseen
        | error stop d' =>
            rw [hrun] at hseen
            rw [StateError.bind_error hrun]
            exact hseen
      · obtain ⟨hlt, hleaf⟩ := hleaf hout
        have hres := unpackLeaf_result (d := d.read 1) hleaf
        have hnone : leafEnd inp d.lua.metatables (inp.opcode d.pos) d.refs.length (d.pos + 1) =
            none := by
          rw [hout.2.1, leafEnd, if_neg fun hin => hout.2.2 hin.2]
        rw [unpackObj_leaf hlt hleaf]
        cases hrun : unpackUserdata inp (d.read 1) with
        | ok v d' =>
            have hsome := hnone.symm.trans (hres.ok _ _ hrun).2
            cases hsome
        | error stop d' =>
            obtain rfl := (hres.error _ _ hrun).2.1.segfault ⟨hout.2.1, hout.1⟩
            exact ⟨d', StateError.bind_error hrun⟩

theorem Visits.run {shape : Shape} {n pos : Nat} {e : Event}
    (h : Visits inp metatables resCount shape n pos e) :
    VisitsRun inp metatables resCount shape n pos e := by
  induction h with
  | here =>
      rintro stack d ⟨rfl, rfl, rfl⟩
      exact unpackObj_here stack d
  | @table n pos e hlt hop _ ih =>
      rintro stack d ⟨rfl, rfl, rfl⟩
      cases stack with
      | zero => exact .inl ⟨d, rfl⟩
      | succ stack =>
          rw [unpackObj_table hlt hop]
          exact (ih stack (inp.size + 1) d.lua.tables.length (d.read 1).withTable
            ⟨rfl, List.length_append, rfl⟩ (by omega)).inside.bind fun _ => .pure _
  | @key n pos e _ ih =>
      intro stack fuel id d hat hfuel
      obtain ⟨fuel, rfl⟩ := Nat.exists_eq_add_one_of_ne_zero (Nat.ne_zero_of_lt hfuel)
      refine (ih stack d hat).bind fun res => ?_
      split
      · exact .pure _
      · exact .throw _
      · exact .afterKey (.unpackObj stack) (.unpackEntries (.unpackObj stack) id fuel)
  | @value n n₁ pos pos₁ bad e hspan _ ih =>
      intro stack fuel id d hat hfuel
      obtain ⟨fuel, rfl⟩ := Nat.exists_eq_add_one_of_ne_zero (Nat.ne_zero_of_lt hfuel)
      rcases hspan.run stack d hat with hover | ⟨ser, key, d₁, hrun, hser, -, hat₁⟩
      · exact .inl (unpackEntries_overflows hover)
      rw [unpackEntries_key hrun hser]
      refine (ih stack d₁ hat₁).bind fun res => ?_
      split
      · exact .throw _
      · exact (Keeps.rawset _ _ _).bind fun _ => .unpackEntries (.unpackObj stack) id fuel
  | @badKey n n₁ n₂ pos pos₁ pos₂ bad hkey hvalue =>
      intro stack fuel id d hat hfuel
      obtain ⟨fuel, rfl⟩ := Nat.exists_eq_add_one_of_ne_zero (Nat.ne_zero_of_lt hfuel)
      rcases hkey.run stack d hat with hover | ⟨ser, key, d₁, hrun, hser, hbad, hat₁⟩
      · exact .inl (unpackEntries_overflows hover)
      rcases hvalue.run stack d₁ hat₁ with hover | ⟨ser', value, d₂, hrun', -, -, -⟩
      · exact .inl (unpackEntries_value_overflows hrun hser hover)
      rw [unpackEntries_value hrun hser hrun']
      exact .inr ⟨fun hdeep => hdeep, fun _ => ⟨d₂, StateError.bind_error (rawset_error
        (Option.isNone_iff_eq_none.mp hbad))⟩, nofun⟩
  | @rest n n₁ n₂ pos pos₁ pos₂ bad e hkey hvalue _ ih =>
      intro stack fuel id d hat hfuel
      obtain ⟨fuel, rfl⟩ := Nat.exists_eq_add_one_of_ne_zero (Nat.ne_zero_of_lt hfuel)
      have hlt := hkey.lt
      have hlt' := hvalue.lt
      rcases hkey.run stack d hat with hover | ⟨ser, key, d₁, hrun, hser, hgood, hat₁⟩
      · exact .inl (unpackEntries_overflows hover)
      rcases hvalue.run stack d₁ hat₁ with hover | ⟨ser', value, d₂, hrun', -, -, hat₂⟩
      · exact .inl (unpackEntries_value_overflows hrun hser hover)
      obtain ⟨t, ht⟩ := LuaTable.rawset_isSome hgood ((d₂.lua.tables[id]?).getD .empty) value
      rw [unpackEntries_value hrun hser hrun', StateError.bind_ok (rawset_ok ht)]
      exact ih stack fuel id (d₂.setTable id t) ⟨hat₂.pos, hat₂.refs, hat₂.metatables⟩ (by omega)
  | @first n pos count e hlt _ ih =>
      rintro room fuel values d hat hfuel rfl
      obtain ⟨fuel, rfl⟩ := Nat.exists_eq_add_one_of_ne_zero (Nat.ne_zero_of_lt hfuel)
      have hpos : ¬ inp.size ≤ d.pos := by
        rw [hat.pos]
        exact Nat.not_le_of_lt hlt
      rw [unpackValues, StateError.get_bind, if_neg hpos]
      refine (ih (room values.length) d hat).above.bind fun res => ?_
      split
      · exact .throw _
      · split_ifs
        · exact .pure _
        · exact .unpackValues resCount fuel _
  | @next n n₁ pos pos₁ count bad e hspan hcount _ ih =>
      rintro room fuel values d hat hfuel rfl
      obtain ⟨fuel, rfl⟩ := Nat.exists_eq_add_one_of_ne_zero (Nat.ne_zero_of_lt hfuel)
      have hlt := hspan.lt
      have hpos : d.pos < inp.size := by
        rw [hat.pos]
        exact hlt.1
      rcases hspan.run (room values.length) d hat with hover | ⟨ser, value, d₁, hrun, -, -, hat₁⟩
      · obtain ⟨d', hover⟩ := hover
        exact .inl ⟨d', unpackValues_error hpos hover⟩
      rw [unpackValues_value hpos hrun, if_neg hcount]
      exact ih room fuel (values ++ [value]) d₁ hat₁ (by omega)
        (by rw [List.length_append, List.length_singleton])

/-! ## A whole run -/

section Whole

variable (inp) (resCount) (room) (L : LuaState)

theorem deserializeUnpackWithin_follows :
    Follows inp resCount room (.values 0) { pos := 0, seen := 0, refs := [], lua := L }
      (fun _ _ => True) (deserializeUnpackWithin room inp resCount L) :=
  @unpackValues_follows inp resCount room _ [] _ (Nat.lt_succ_of_le (Nat.sub_le _ _))

theorem deserializeUnpackWithin_visits {e : Event} (h : Visited inp resCount L e) :
    Effect inp L.metatables room e (deserializeUnpackWithin room inp resCount L) :=
  h.run _ _ _ _ ⟨rfl, rfl, rfl⟩ (Nat.lt_succ_of_le (Nat.sub_le _ _)) rfl

end Whole

section Stop

variable {L : LuaState}

theorem Event.of_place {e : Event} {pos : Nat} (h : e.place = some pos) :
    ∃ below depth, e = .call below depth pos := by
  cases e with
  | call below depth pos' =>
      obtain rfl := Option.some.inj h
      exact ⟨below, depth, rfl⟩
  | badKey => cases h

theorem Event.of_deep {e : Event} (h : e.Deep room) :
    ∃ below depth pos, e = .call below depth pos ∧ room below ≤ depth := by
  cases e with
  | call below depth pos => exact ⟨below, depth, pos, rfl, h⟩
  | badKey => exact h.elim

theorem SticksOut.mono {limit limit' pos : Nat} (hle : limit ≤ limit')
    (h : SticksOut inp metatables limit' pos) : SticksOut inp metatables limit pos := by
  obtain ⟨hin, hop, hout⟩ := h
  refine ⟨hin, hop, fun ⟨hname, hsize, hblock⟩ => hout ⟨?_, ?_, fun hsome => ?_⟩⟩
  · exact Nat.le_trans hname hle
  · exact Nat.le_trans hsize hle
  · exact Nat.le_trans (hblock hsome) hle

/-- An input is not nested deeper than it is long. -/
theorem Visits.depth_le {shape : Shape} {n pos : Nat} {e : Event}
    (h : Visits inp metatables resCount shape n pos e) :
    ∀ below depth pos', e = .call below depth pos' → pos + depth ≤ max pos inp.size := by
  induction h with
  | here =>
      rintro below depth pos' heq
      cases heq
      exact Nat.le_max_left ..
  | @table n pos e hlt _ _ ih =>
      rintro below depth pos' heq
      cases e with
      | badKey => cases heq
      | call below' depth' pos'' =>
          cases heq
          have hle := ih _ _ _ rfl
          omega
  | key _ ih => exact ih
  | value hspan _ ih =>
      rintro below depth pos' heq
      have hlt := hspan.lt
      have hle := ih _ _ _ heq
      omega
  | badKey => nofun
  | rest hkey hvalue _ ih =>
      rintro below depth pos' heq
      have hlt := hkey.lt
      have hlt' := hvalue.lt
      have hle := ih _ _ _ heq
      omega
  | @first n pos count e _ _ ih =>
      rintro below depth pos' heq
      cases e with
      | badKey => cases heq
      | call below' depth' pos'' =>
          cases heq
          exact ih _ _ _ rfl
  | next hspan _ _ ih =>
      rintro below depth pos' heq
      have hlt := hspan.lt
      have hle := ih _ _ _ heq
      omega

theorem roomSuffices_size (inp : Input) (resCount : Int) (L : LuaState) :
    RoomSuffices (fun _ => inp.size + 1) inp resCount L := by
  intro below depth pos hvisit
  have hle := hvisit.depth_le _ _ _ rfl
  show depth < inp.size + 1
  omega

/-- The stack overflows only if something is nested too deep for it. -/
theorem RoomSuffices.not_overflows (hroom : RoomSuffices room inp resCount L) :
    ¬ StackOverflows (deserializeUnpackWithin room inp resCount L) := by
  rintro ⟨d, hrun⟩
  rcases (deserializeUnpackWithin_follows inp resCount room L).stop _ _ hrun with
    ⟨code, info, heq⟩ | ⟨e, hvisit, hdeep⟩
  · cases heq
  · obtain ⟨below, depth, pos, rfl, hle⟩ := Event.of_deep hdeep
    exact Nat.not_lt_of_le hle (hroom below depth pos hvisit)

/-- With room for what is visited, a run does not depend on the stacks. -/
theorem RoomSuffices.deserializeUnpackWithin_eq (h : RoomSuffices room inp resCount L) :
    deserializeUnpackWithin room inp resCount L = deserializeUnpack inp resCount L := by
  have hsame : ∀ {room' : Nat → Nat}, RoomSuffices room' inp resCount L →
      deserializeUnpackWithin room' inp resCount L =
        deserializeUnpackWithin (fun below => max (room below) (inp.size + 1)) inp resCount L ∨
      ¬ ∀ below, room' below ≤ max (room below) (inp.size + 1) := by
    intro room' hroom
    refine or_iff_not_imp_right.mpr fun hle => ?_
    refine (unpackValues_upTo (not_not.mp hle) _ _ _).resolve_left fun hover => ?_
    exact hroom.not_overflows hover
  have hroom := (hsame h).resolve_right fun hnot => hnot fun _ => Nat.le_max_left ..
  have hsize := (hsame (roomSuffices_size inp resCount L)).resolve_right
    fun hnot => hnot fun _ => Nat.le_max_right ..
  exact hroom.trans hsize.symm

end Stop

/-- A run that comes to an end. -/
def Terminates {α : Type} (r : EStateM.Result Stop Deser α) : Prop :=
  ∀ stop d, r = .error stop d → stop ≠ .segfault ∧ stop ≠ .stackOverflow ∧ stop ≠ .fuel

/-- A userdata record without a zero behind its name. -/
def openName : Input where
  mem := [15, 1, 97, 97, 97, 97, 97, 97, 97, 0]
  size := 9
  size_le := by decide

end RandServer
