import Mathlib.Data.List.Basic

/-!
# Texts with single-quoted literals

A tokenizer for texts in which a literal stands between single quotes. In a literal two
quotes stand for one and a backslash escapes the next byte, except in front of `%` and `_`,
where it stays. A statement is assembled from pieces of code and values between quotes.
`lex_text_iff` says when it is read as it was meant: a value that is put into the text as
it is must have no quote, and no backslash in front of anything else than `%` or `_`.
-/

namespace SqlText

def quote : UInt8 := 39

def backslash : UInt8 := 92

/-- A byte outside of literals, or the content of a literal. -/
inductive Token
  | code (b : UInt8)
  | literal (content : List UInt8)
  deriving DecidableEq

/-- The bytes that a backslash leaves where it is: `%` and `_`. -/
def Wild (b : UInt8) : Prop := b = 37 ∨ b = 95

instance (b : UInt8) : Decidable (Wild b) := inferInstanceAs (Decidable (b = 37 ∨ b = 95))

/-- What a backslash in front of a byte stands for: `\0`, `\b`, `\n`, `\r`, `\t` and `\Z` are
control characters. -/
def unescape (b : UInt8) : List UInt8 :=
  if Wild b then [backslash, b]
  else if b = 48 then [0]
  else if b = 98 then [8]
  else if b = 110 then [10]
  else if b = 114 then [13]
  else if b = 116 then [9]
  else if b = 90 then [26]
  else [b]

/-- Outside of literals, in a literal, behind a backslash in it, behind a quote in it. -/
inductive Mode
  | code
  | text (acc : List UInt8)
  | escape (acc : List UInt8)
  | quote (acc : List UInt8)

/-- The tokens of a text. There are none if a literal does not end. -/
def lex : Mode → List UInt8 → Option (List Token)
  | .code, [] => some []
  | .code, b :: bs =>
      if b = quote then lex (.text []) bs else (lex .code bs).map (.code b :: ·)
  | .text _, [] => none
  | .text acc, b :: bs =>
      if b = quote then lex (.quote acc) bs
      else if b = backslash then lex (.escape acc) bs
      else lex (.text (acc ++ [b])) bs
  | .escape _, [] => none
  | .escape acc, b :: bs => lex (.text (acc ++ unescape b)) bs
  | .quote acc, [] => some [.literal acc]
  | .quote acc, b :: bs =>
      if b = quote then lex (.text (acc ++ [quote])) bs
      else (lex .code bs).map fun ts => .literal acc :: .code b :: ts

/-- In a literal the bytes stand for the content. -/
def ReadsAs (raw content : List UInt8) : Prop :=
  ∀ acc bs, lex (.text acc) (raw ++ quote :: bs) = lex (.quote (acc ++ content)) bs

/-- No quote, and a backslash only in front of `%` and `_`. -/
def Verbatim : List UInt8 → Prop
  | [] => True
  | b :: bs => b ≠ quote ∧ (b = backslash → ∃ c ∈ bs.head?, Wild c) ∧ Verbatim bs

instance : (v : List UInt8) → Decidable (Verbatim v)
  | [] => .isTrue trivial
  | b :: bs =>
      have := instDecidableVerbatim bs
      inferInstanceAs (Decidable (b ≠ quote ∧ (b = backslash → ∃ c ∈ bs.head?, Wild c) ∧ Verbatim bs))

variable {b c r : UInt8} {acc bs rest raw content v w x : List UInt8} {ts : List Token}

/-- The bytes that end or escape something in a literal. -/
def Special (b : UInt8) : Prop := b = quote ∨ b = backslash

theorem not_special : ¬ Special b ↔ b ≠ quote ∧ b ≠ backslash := not_or

theorem Wild.not_special (h : Wild b) : ¬ Special b := by
  rintro (rfl | rfl) <;> exact absurd h (by decide)

theorem unescape_quote : unescape quote = [quote] := by decide

theorem unescape_wild (h : Wild b) : unescape b = [backslash, b] := if_pos h

theorem unescape_eq_singleton (h : ¬ Wild b) : ∃ u, unescape b = [u] ∧ (Special u → b = u) := by
  unfold unescape
  rw [if_neg h]
  split_ifs
  all_goals refine ⟨_, rfl, ?_⟩
  all_goals first
    | exact fun _ => rfl
    | exact fun hu => absurd hu (by unfold Special; decide)

theorem lex_quote_text : lex (.text acc) (quote :: bs) = lex (.quote acc) bs := if_pos rfl

theorem lex_backslash_text : lex (.text acc) (backslash :: bs) = lex (.escape acc) bs :=
  (if_neg (by decide)).trans (if_pos rfl)

theorem lex_text_of_not_special (h : ¬ Special b) :
    lex (.text acc) (b :: bs) = lex (.text (acc ++ [b])) bs := by
  rw [not_special] at h
  exact (if_neg h.1).trans (if_neg h.2)

theorem lex_quote_quote : lex (.quote acc) (quote :: bs) = lex (.text (acc ++ [quote])) bs :=
  if_pos rfl

/-- A literal ends at a quote that no other quote follows. -/
theorem lex_quote_of_ne (h : b ≠ quote) :
    lex (.quote acc) (b :: bs) = (lex .code (b :: bs)).map (.literal acc :: ·) := by
  simp only [lex, if_neg h, Option.map_map]
  rfl

/-- The first token of a literal that has begun is this literal. -/
theorem lex_literal {m : Mode} (hm : m = .text acc ∨ m = .escape acc ∨ m = .quote acc)
    (h : lex m bs = some ts) : ∃ c ts', ts = .literal (acc ++ c) :: ts' := by
  induction bs generalizing m acc with
  | nil =>
      obtain rfl | rfl | rfl := hm
      · cases h
      · cases h
      · cases h
        exact ⟨[], [], by rw [List.append_nil]⟩
  | cons b bs ih =>
      obtain rfl | rfl | rfl := hm
      · rw [lex] at h
        split_ifs at h
        · exact ih (.inr (.inr rfl)) h
        · exact ih (.inr (.inl rfl)) h
        · obtain ⟨c, ts', rfl⟩ := ih (.inl rfl) h
          exact ⟨_, ts', by rw [List.append_assoc]⟩
      · obtain ⟨c, ts', rfl⟩ := ih (.inl rfl) h
        exact ⟨_, ts', by rw [List.append_assoc]⟩
      · rw [lex] at h
        split_ifs at h
        · obtain ⟨c, ts', rfl⟩ := ih (.inl rfl) h
          exact ⟨_, ts', by rw [List.append_assoc]⟩
        · obtain ⟨ts', -, rfl⟩ := Option.map_eq_some_iff.mp h
          exact ⟨[], _, by rw [List.append_nil]⟩

/-- What has been read of a literal is the beginning of its content. -/
theorem acc_isPrefix (h : lex (.text (acc ++ v)) bs = some (.literal (acc ++ w) :: ts)) :
    v <+: w := by
  obtain ⟨c, ts', heq⟩ := lex_literal (.inl rfl) h
  have hcontent := Token.literal.inj (List.cons.inj heq).1
  rw [List.append_assoc] at hcontent
  exact ⟨c, (List.append_cancel_left hcontent).symm⟩

/-- A byte that is read first is the first one of the content. -/
theorem head_eq_of_lex (h : lex (.text (acc ++ [b])) bs = some (.literal (acc ++ c :: w) :: ts)) :
    b = c :=
  (List.cons_prefix_cons.mp (acc_isPrefix h)).1

/-- A special byte at the end of a value takes the closing quote into the literal. -/
theorem lex_special_quote (hb : Special b) (hr : ¬ Special r) :
    lex (.text acc) (b :: quote :: r :: rest) = lex (.text (acc ++ [quote, r])) rest := by
  obtain rfl | rfl := hb
  · rw [lex_quote_text, lex_quote_quote, lex_text_of_not_special hr, List.append_assoc]
    rfl
  · rw [lex_backslash_text, lex, unescape_quote, lex_text_of_not_special hr, List.append_assoc]
    rfl

/-! ## Values without escapes -/

/-- Once it has read more bytes than the content has, a literal cannot end with this content.
Every further byte of the content would stand for two bytes of the text, and these run out
of the value. -/
theorem no_overrun (hr : ¬ Special r) : ∀ (w acc x : List UInt8), x ≠ [] → (∀ b ∈ x, Special b) →
    lex (.text acc) (w ++ quote :: r :: rest) ≠ some (.literal (acc ++ (x ++ w)) :: ts)
  | w, acc, [], hx, _ => absurd rfl hx
  | [], acc, x₀ :: x, _, _ => by
      intro h
      rw [List.nil_append, lex_quote_text, lex_quote_of_ne (not_special.mp hr).1] at h
      obtain ⟨ts', -, heq⟩ := Option.map_eq_some_iff.mp h
      have hcontent := Token.literal.inj (List.cons.inj heq).1
      exact absurd (List.self_eq_append_right.mp hcontent) (by simp)
  | [a], acc, x₀ :: x, _, hspecial => by
      intro h
      by_cases ha : Special a
      · rw [List.singleton_append, lex_special_quote ha hr] at h
        have hmem : r ∈ x₀ :: x ++ [a] := (acc_isPrefix h).subset (by simp)
        cases List.mem_append.mp hmem with
        | inl hx => exact hr (hspecial r hx)
        | inr hlast => exact hr (List.mem_singleton.mp hlast ▸ ha)
      · rw [List.singleton_append, lex_text_of_not_special ha] at h
        exact ha (head_eq_of_lex h ▸ hspecial x₀ List.mem_cons_self)
  | a :: b :: w, acc, x₀ :: x, _, hspecial => by
      intro h
      have hfirst : Special x₀ := hspecial x₀ List.mem_cons_self
      have hmore : ∀ u v, Special u → Special v → ∀ c ∈ x ++ [u, v], Special c := by
        intro u v hu hv c hc
        simp only [List.mem_append, List.mem_cons, List.not_mem_nil, or_false] at hc
        obtain hc | rfl | rfl := hc
        · exact hspecial c (List.mem_cons_of_mem _ hc)
        · exact hu
        · exact hv
      have hassoc : ∀ u v, acc ++ (x₀ :: x ++ u :: v :: w) =
          (acc ++ [x₀]) ++ ((x ++ [u, v]) ++ w) := fun u v => by simp
      by_cases ha : Special a
      · obtain rfl | rfl := ha
        · rw [List.cons_append, List.cons_append, lex_quote_text] at h
          by_cases hb : b = quote
          · subst hb
            rw [lex_quote_quote] at h
            obtain rfl := head_eq_of_lex h
            rw [hassoc] at h
            exact no_overrun hr w _ _ (by simp) (hmore _ _ hfirst hfirst) h
          · rw [lex_quote_of_ne hb] at h
            obtain ⟨ts', -, heq⟩ := Option.map_eq_some_iff.mp h
            have hcontent := Token.literal.inj (List.cons.inj heq).1
            exact absurd (List.self_eq_append_right.mp hcontent) (by simp)
        · rw [List.cons_append, List.cons_append, lex_backslash_text, lex] at h
          by_cases hb : Wild b
          · rw [unescape_wild hb] at h
            have htwo := (List.cons_prefix_cons.mp (acc_isPrefix h)).2
            have hmem : b ∈ x ++ [backslash] := by
              cases x with
              | nil => exact List.mem_singleton.mpr (List.cons_prefix_cons.mp htwo).1
              | cons x₁ x =>
                  rw [(List.cons_prefix_cons.mp htwo).1]
                  exact List.mem_cons_self
            cases List.mem_append.mp hmem with
            | inl hx => exact hb.not_special (hspecial b (List.mem_cons_of_mem _ hx))
            | inr hlast => exact hb.not_special (.inr (List.mem_singleton.mp hlast))
          · obtain ⟨u, hu, hsame⟩ := unescape_eq_singleton hb
            rw [hu] at h
            obtain rfl := head_eq_of_lex h
            rw [hassoc] at h
            have hb' : Special b := hsame hfirst ▸ hfirst
            exact no_overrun hr w _ _ (by simp) (hmore _ _ (.inr rfl) hb') h
      · rw [List.cons_append, lex_text_of_not_special ha] at h
        exact ha (head_eq_of_lex h ▸ hfirst)

theorem verbatim_cons_of_not_special (h : ¬ Special b) : Verbatim (b :: bs) ↔ Verbatim bs := by
  rw [not_special] at h
  simp only [Verbatim, ne_eq, h, not_false_eq_true, true_and, false_implies]

theorem verbatim_wild (h : Wild c) : Verbatim (backslash :: c :: bs) ↔ Verbatim (c :: bs) := by
  have hne : backslash ≠ quote := by decide
  simp only [Verbatim, ne_eq, hne, not_false_eq_true, true_and, List.head?_cons, Option.mem_def,
    Option.some.injEq, exists_eq_left', h, forall_const]

/-- A plain value stands for itself. -/
theorem Verbatim.reads (h : Verbatim v) : ReadsAs v v := by
  intro acc bs
  induction v generalizing acc with
  | nil => rw [List.nil_append, lex_quote_text, List.append_nil]
  | cons b v ih =>
      have hrest := ih h.2.2
      by_cases hb : Special b
      · obtain rfl := hb.resolve_left h.1
        obtain ⟨c, hc, hwild⟩ := h.2.1 rfl
        obtain ⟨v, rfl⟩ := List.head?_eq_some_iff.mp hc
        have hnext := hrest (acc ++ [backslash])
        rw [List.cons_append, lex_text_of_not_special hwild.not_special] at hnext
        rw [List.cons_append, List.cons_append, lex_backslash_text, lex, unescape_wild hwild]
        rwa [List.append_assoc, List.append_assoc] at hnext
      · rw [List.cons_append, lex_text_of_not_special hb, hrest, List.append_assoc]
        rfl

/-- A value that is read back from its literal is plain. -/
theorem verbatim_of_lex (hr : ¬ Special r)
    (h : lex (.text acc) (v ++ quote :: r :: rest) = some (.literal (acc ++ v) :: ts)) : Verbatim v := by
  induction v generalizing acc with
  | nil => trivial
  | cons b v ih =>
      by_cases hb : Special b
      · cases v with
        | nil =>
            rw [List.singleton_append, lex_special_quote hb hr] at h
            have hlen := (acc_isPrefix h).length_le
            exact absurd hlen (by simp)
        | cons c v =>
            have htwice : acc ++ b :: b :: v = (acc ++ [b]) ++ ([b] ++ v) := by simp
            obtain rfl | rfl := hb
            · rw [List.cons_append, List.cons_append, lex_quote_text] at h
              by_cases hc : c = quote
              · subst hc
                rw [lex_quote_quote, htwice] at h
                exact absurd h (no_overrun hr v _ _ (by simp) (by simp [Special]))
              · rw [lex_quote_of_ne hc] at h
                obtain ⟨ts', -, heq⟩ := Option.map_eq_some_iff.mp h
                have hcontent := Token.literal.inj (List.cons.inj heq).1
                exact absurd (List.self_eq_append_right.mp hcontent) (by simp)
            · rw [List.cons_append, List.cons_append, lex_backslash_text, lex] at h
              by_cases hc : Wild c
              · rw [unescape_wild hc] at h
                refine (verbatim_wild hc).mpr (@ih (acc ++ [backslash]) ?_)
                rw [List.cons_append, lex_text_of_not_special hc.not_special, List.append_assoc,
                  List.append_assoc]
                exact h
              · obtain ⟨u, hu, hsame⟩ := unescape_eq_singleton hc
                rw [hu] at h
                obtain rfl := head_eq_of_lex h
                obtain rfl := hsame (.inr rfl)
                rw [htwice] at h
                exact absurd h (no_overrun hr v _ _ (by simp) (by simp [Special]))
      · rw [List.cons_append, lex_text_of_not_special hb] at h
        refine (verbatim_cons_of_not_special hb).mpr (@ih (acc ++ [b]) ?_)
        rwa [List.append_assoc]

/-- The plain values are those that stand for themselves. -/
theorem verbatim_iff_reads : Verbatim v ↔ ReadsAs v v := by
  refine ⟨Verbatim.reads, fun h => ?_⟩
  have hlex := h [] [32]
  rw [lex_quote_of_ne (by decide)] at hlex
  exact verbatim_of_lex (by unfold Special; decide) hlex

/-! ## Statements in pieces -/

/-- A piece of code, or a value that stands between quotes. -/
inductive Piece (α : Type)
  | code (text : List UInt8)
  | value (a : α)

namespace Piece

variable {α β : Type}

def map (f : α → β) : Piece α → Piece β
  | code text => code text
  | value a => value (f a)

def text : Piece (List UInt8) → List UInt8
  | code text => text
  | value raw => quote :: raw ++ [quote]

/-- What the piece is meant to be. -/
def tokens : Piece (List UInt8) → List Token
  | code text => text.map Token.code
  | value content => [.literal content]

def values : List (Piece α) → List α
  | [] => []
  | code _ :: ps => values ps
  | value a :: ps => a :: values ps

/-- The pieces begin with code, and that not with a backslash. -/
def Closes (ps : List (Piece α)) : Prop :=
  ∃ r text ps', ps = code (r :: text) :: ps' ∧ r ≠ backslash

/-- No code has a quote, and behind each value stands code that closes it. -/
def Spaced : List (Piece α) → Prop
  | [] => True
  | code text :: ps => (∀ b ∈ text, b ≠ quote) ∧ Spaced ps
  | value _ :: ps => Closes ps ∧ Spaced ps

variable {ps qs : List (Piece α)}

@[simp] theorem values_append : values (ps ++ qs) = values ps ++ values qs := by
  induction ps with
  | nil => rfl
  | cons p ps ih => cases p <;> simp only [List.cons_append, values, ih]

theorem values_flatMap {γ : Type} (f : γ → List (Piece α)) (xs : List γ) :
    values (xs.flatMap f) = xs.flatMap fun x => values (f x) := by
  induction xs with
  | nil => rfl
  | cons x xs ih => simp only [List.flatMap_cons, values_append, ih]

theorem Closes.append (h : Closes ps) : Closes (ps ++ qs) := by
  obtain ⟨r, text, ps', rfl, hr⟩ := h
  exact ⟨r, text, ps' ++ qs, rfl, hr⟩

theorem Spaced.append (hp : Spaced ps) (hq : Spaced qs) : Spaced (ps ++ qs) := by
  induction ps with
  | nil => exact hq
  | cons p ps ih =>
      cases p with
      | code text => exact ⟨hp.1, ih hp.2⟩
      | value a => exact ⟨hp.1.append, ih hp.2⟩

theorem Spaced.flatMap {γ : Type} {f : γ → List (Piece α)} (h : ∀ x, Spaced (f x)) (xs : List γ) :
    Spaced (xs.flatMap f) := by
  induction xs with
  | nil => trivial
  | cons x xs ih => exact (h x).append ih

/-- Values with code between them. -/
theorem Spaced.row {γ : Type} {sep : Piece α} {pre : γ → List (Piece α)} {f : γ → α}
    (hsep : Closes [sep] ∧ Spaced [sep]) (hpre : ∀ k, Spaced (pre k)) (hclose : Closes ps)
    (hps : Spaced ps) (a : α) (ks : List γ) :
    Spaced (value a :: (ks.flatMap (fun k => sep :: (pre k ++ [value (f k)])) ++ ps)) := by
  induction ks generalizing a with
  | nil => exact ⟨hclose, hps⟩
  | cons k ks ih =>
      have hnext : Spaced ([sep] ++ (pre k ++
          (value (f k) :: (ks.flatMap (fun k => sep :: (pre k ++ [value (f k)])) ++ ps)))) :=
        hsep.2.append ((hpre k).append (ih (f k)))
      simp only [List.flatMap_cons, List.cons_append, List.append_assoc, List.nil_append] at hnext ⊢
      exact ⟨hsep.1.append, hnext⟩

end Piece

/-- The bytes of a value in the text, and what they are meant to stand for. -/
structure Cell where
  raw : List UInt8
  content : List UInt8

section Pieces

variable {ps : List (Piece Cell)} {text : List UInt8}

theorem lex_code_append (h : ∀ b ∈ text, b ≠ quote) :
    lex .code (text ++ bs) = (lex .code bs).map (text.map Token.code ++ ·) := by
  induction text with
  | nil =>
      rw [List.nil_append]
      exact Option.map_id'.symm
  | cons b text ih =>
      rw [List.cons_append, lex, if_neg (h b List.mem_cons_self),
        ih fun c hc => h c (List.mem_cons_of_mem _ hc), Option.map_map]
      rfl

/-- A value is read as it was meant, and so is what follows. -/
theorem lex_value_iff {cell : Cell} (hr : ¬ Special r)
    (hcell : ReadsAs cell.raw cell.content ∨ cell.raw = cell.content) :
    lex .code (quote :: (cell.raw ++ quote :: r :: rest)) = some (.literal cell.content :: ts) ↔
      ReadsAs cell.raw cell.content ∧ lex .code (r :: rest) = some ts := by
  have hopen : lex .code (quote :: (cell.raw ++ quote :: r :: rest)) =
      lex (.text []) (cell.raw ++ quote :: r :: rest) := if_pos rfl
  rw [hopen]
  by_cases hreads : ReadsAs cell.raw cell.content
  · rw [hreads, List.nil_append, lex_quote_of_ne (not_special.mp hr).1]
    simp only [hreads, true_and]
    exact (Option.map_injective (List.cons_injective)).eq_iff (b := some ts)
  · refine iff_of_false (fun h => hreads ?_) fun h => hreads h.1
    have hsame := hcell.resolve_left hreads
    rw [← hsame] at h ⊢
    exact (verbatim_of_lex hr h).reads

/-- A statement is read as it was meant if and only if each value in it is. -/
theorem lex_text_iff (hspaced : Piece.Spaced ps)
    (hcell : ∀ cell ∈ Piece.values ps, ReadsAs cell.raw cell.content ∨ cell.raw = cell.content) :
    lex .code ((ps.map (·.map Cell.raw)).flatMap Piece.text) =
        some ((ps.map (·.map Cell.content)).flatMap Piece.tokens) ↔
      ∀ cell ∈ Piece.values ps, ReadsAs cell.raw cell.content := by
  induction ps with
  | nil => exact iff_of_true rfl nofun
  | cons p ps ih =>
      cases p with
      | code text =>
          have hinj : Function.Injective (text.map Token.code ++ ·) := List.append_right_injective _
          simp only [List.map_cons, Piece.map, List.flatMap_cons, Piece.text, Piece.tokens,
            Piece.values, lex_code_append hspaced.1]
          exact ((Option.map_injective hinj).eq_iff (b := some _)).trans (ih hspaced.2 hcell)
      | value cell =>
          simp only [Piece.values, List.forall_mem_cons] at hcell ⊢
          have hrest := ih hspaced.2 hcell.2
          obtain ⟨r, text, ps', rfl, hback⟩ := hspaced.1
          have hr : ¬ Special r := not_special.mpr ⟨hspaced.2.1 r List.mem_cons_self, hback⟩
          have hvalue := @lex_value_iff r
            (text ++ (ps'.map (·.map Cell.raw)).flatMap Piece.text)
            (((Piece.code (r :: text) :: ps').map (·.map Cell.content)).flatMap Piece.tokens)
            cell hr hcell.1
          rw [← hrest]
          refine Iff.trans (Eq.congr ?_ rfl) hvalue
          simp only [List.map_cons, Piece.map, List.flatMap_cons, Piece.text, List.cons_append,
            List.append_assoc, List.nil_append]

end Pieces

end SqlText
