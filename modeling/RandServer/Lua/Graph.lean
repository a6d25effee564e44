import RandServer.Lua.Value

/-!
# Graphs of Lua values

A list of values and the tables that can be reached from it form a rooted graph. Renaming
the tables of a value is what a copy of the graph does to its values. `Isomorphic` says
that one graph is a copy of another under an injective renaming, and `Copies` allows the
copy to lack what the serializer does not support.
-/

namespace RandServer

namespace LuaValue

/-- The kinds of values that the serializer supports everywhere. -/
def supported : LuaValue → Bool
  | .function _ | .thread _ | .userdata _ | .lightuserdata _ => false
  | _ => true

def isTable : LuaValue → Bool
  | .table _ => true
  | _ => false

def rename (f : Nat → Nat) : LuaValue → LuaValue
  | .table id => .table (f id)
  | v => v

/-- A copy of a value, with nil in place of what is not supported. -/
def image (f : Nat → Nat) (v : LuaValue) : LuaValue :=
  if v.supported then v.rename f else .nil

variable {f : Nat → Nat} {v k : LuaValue}

theorem rename_of_not_table (h : v.isTable = false) : v.rename f = v := by
  cases v with
  | table id => cases h
  | _ => rfl

theorem image_of_supported (h : v.supported = true) : v.image f = v.rename f := if_pos h

theorem image_of_not_supported (h : v.supported = false) : v.image f = .nil :=
  if_neg (by rw [h]; exact Bool.false_ne_true)

theorem rename_eq_nil : v.rename f = .nil ↔ v = .nil := by cases v <;> simp [rename]

theorem luaKey_rename (h : luaKey k = some k) : luaKey (k.rename f) = some (k.rename f) := by
  cases k with
  | table id => rfl
  | _ => exact h

/-- Renaming is injective on values whose tables the renaming tells apart. -/
theorem rename_inj {v w : LuaValue}
    (hinj : ∀ t u, v = .table t → w = .table u → f t = f u → t = u)
    (h : v.rename f = w.rename f) : v = w := by
  cases v with
  | table t =>
      cases w with
      | table u =>
          rw [hinj t u rfl rfl (LuaValue.table.inj h)]
      | _ => cases h
  | _ =>
      cases w with
      | table u => cases h
      | _ => exact h

end LuaValue

/-- Both the key and the value of an entry are supported. -/
def entrySupported (e : LuaValue × LuaValue) : Bool := e.1.supported && e.2.supported

/-- The copies of the entries that are supported. -/
def imageEntries (f : Nat → Nat) (es : List (LuaValue × LuaValue)) :
    List (LuaValue × LuaValue) :=
  (es.filter entrySupported).map fun e => (e.1.rename f, e.2.rename f)

theorem imageEntries_append (f : Nat → Nat) (es es' : List (LuaValue × LuaValue)) :
    imageEntries f (es ++ es') = imageEntries f es ++ imageEntries f es' := by
  rw [imageEntries, List.filter_append, List.map_append]
  rfl

namespace LuaState

variable {L L' : LuaState} {vs vs' : List LuaValue} {f : Nat → Nat}

/-- The graph of `vs'` is a copy of the graph of `vs`. -/
structure Isomorphic (L L' : LuaState) (vs vs' : List LuaValue) (f : Nat → Nat) : Prop where
  roots : vs' = vs.map (·.rename f)
  injective : ∀ t u, L.Reach vs t → L.Reach vs u → f t = f u → t = u
  entries : ∀ t, L.Reach vs t →
    (L'.entries (f t)).Perm ((L.entries t).map fun e => (e.1.rename f, e.2.rename f))

/-- The graph of `vs'` is a copy of the graph of `vs` in which unsupported values are nil
and entries with an unsupported key or value are missing. -/
structure Copies (L L' : LuaState) (vs vs' : List LuaValue) (f : Nat → Nat) : Prop where
  roots : vs' = vs.map (·.image f)
  injective : ∀ t u, L.Reach vs t → L.Reach vs u → f t = f u → t = u
  entries : ∀ t, L.Reach vs t → (L'.entries (f t)).Perm (imageEntries f (L.entries t))

theorem Occurs.reach {t : Nat} (h : L.Occurs vs (.table t)) : L.Reach vs t := by
  cases h with
  | root h => exact .root h
  | key h he => exact .key h he
  | value h he => exact .value h he

/-- Without unsupported values a copy is complete. -/
theorem Copies.isomorphic (h : L.Copies L' vs vs' f)
    (hall : ∀ v, L.Occurs vs v → v.supported = true) : L.Isomorphic L' vs vs' f := by
  refine ⟨?_, h.injective, fun t ht => ?_⟩
  · rw [h.roots]
    exact List.map_congr_left fun v hv => LuaValue.image_of_supported (hall v (.root hv))
  · have hfilter : (L.entries t).filter entrySupported = L.entries t := by
      rw [List.filter_eq_self]
      intro e he
      rw [entrySupported, hall e.1 (.key ht he), hall e.2 (.value ht he)]
      rfl
    have hentries := h.entries t ht
    rwa [imageEntries, hfilter] at hentries

/-- Fewer than `2 ^ 31` tables can be reached. -/
def Few (L : LuaState) (vs : List LuaValue) : Prop :=
  ∀ ts : List Nat, ts.Nodup → (∀ t ∈ ts, L.Reach vs t) → ts.length < 2 ^ 31

/-- `L.Walk seen vs depth seen'`: a walk through the values, and through the keys and values
of every table where it is met first, gets `depth` tables deep. `seen` are the tables met
before, and `seen'` those met afterwards. -/
inductive Walk (L : LuaState) : Set Nat → List LuaValue → Nat → Set Nat → Prop
  | nil {seen : Set Nat} : L.Walk seen [] 0 seen
  | skip {seen seen' : Set Nat} {v : LuaValue} {vs : List LuaValue} {depth : Nat} :
      (∀ id, v = .table id → id ∈ seen) → L.Walk seen vs depth seen' →
      L.Walk seen (v :: vs) depth seen'
  | enter {seen seen₁ seen' : Set Nat} {id : Nat} {vs : List LuaValue} {depth₁ depth : Nat} :
      id ∉ seen →
      L.Walk (insert id seen) ((L.entries id).flatMap fun e => [e.1, e.2]) depth₁ seen₁ →
      L.Walk seen₁ vs depth seen' → L.Walk seen (.table id :: vs) (max (depth₁ + 1) depth) seen'

/-- Where tables are met first, they are nested `depth` deep. -/
def Nests (L : LuaState) (vs : List LuaValue) (depth : Nat) : Prop := ∃ seen, L.Walk ∅ vs depth seen

namespace Walk

variable {seen seen₁ seen' seen'' : Set Nat} {ws : List LuaValue} {depth depth' : Nat}

theorem append (h : L.Walk seen vs depth seen₁) (h' : L.Walk seen₁ ws depth' seen') :
    L.Walk seen (vs ++ ws) (max depth depth') seen' := by
  induction h with
  | nil =>
      rw [Nat.zero_max]
      exact h'
  | skip hmem _ ih => exact .skip hmem (ih h')
  | enter hnew hbody _ _ ih =>
      rw [Nat.max_assoc]
      exact .enter hnew hbody (ih h')

theorem unique (h : L.Walk seen vs depth seen') (h' : L.Walk seen vs depth' seen'') :
    depth = depth' ∧ seen' = seen'' := by
  induction h generalizing depth' seen'' with
  | nil =>
      cases h'
      exact ⟨rfl, rfl⟩
  | skip hmem _ ih =>
      cases h' with
      | skip _ hrest => exact ih hrest
      | enter hnew => exact absurd (hmem _ rfl) hnew
  | enter hnew _ _ ih ih' =>
      cases h' with
      | skip hmem => exact absurd (hmem _ rfl) hnew
      | enter _ hbody hrest =>
          obtain ⟨rfl, rfl⟩ := ih hbody
          obtain ⟨rfl, rfl⟩ := ih' hrest
          exact ⟨rfl, rfl⟩

end Walk

theorem Nests.unique {depth depth' : Nat} (h : L.Nests vs depth) (h' : L.Nests vs depth') :
    depth = depth' := by
  obtain ⟨seen, hwalk⟩ := h
  obtain ⟨seen', hwalk'⟩ := h'
  exact (hwalk.unique hwalk').1

/-- No reachable table has a key that is not supported. -/
def KeysSupported (L : LuaState) (vs : List LuaValue) : Prop :=
  ∀ t, L.Reach vs t → ∀ e ∈ L.entries t, e.1.supported = true

theorem entries_eq {t : Nat} : L.entries t = [] ∨ ∃ T ∈ L.tables, L.entries t = T.entries := by
  unfold entries
  cases h : L.tables[t]? with
  | none => exact .inl rfl
  | some T => exact .inr ⟨T, List.mem_of_getElem? h, rfl⟩

theorem entries_normal {t : Nat} : ∀ e ∈ L.entries t, luaKey e.1 = some e.1 := by
  rcases L.entries_eq (t := t) with h | ⟨T, -, h⟩
  · rw [h]
    exact fun e he => absurd he List.not_mem_nil
  · rw [h]
    exact T.keys_normal

theorem entries_nodup {t : Nat} : ((L.entries t).map Prod.fst).Nodup := by
  rcases L.entries_eq (t := t) with h | ⟨T, -, h⟩
  · rw [h]
    exact List.nodup_nil
  · rw [h]
    exact T.keys_nodup

theorem entries_ne_nil {t : Nat} : ∀ e ∈ L.entries t, e.2 ≠ .nil := by
  rcases L.entries_eq (t := t) with h | ⟨T, -, h⟩
  · rw [h]
    exact fun e he => absurd he List.not_mem_nil
  · rw [h]
    exact T.values_ne_nil

end LuaState

end RandServer
