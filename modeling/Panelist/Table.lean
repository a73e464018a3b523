import Mathlib

/-! Relational tables: rows in insertion order, no two of which break a unique
constraint. The constraint is part of the type, so a table that violates its
primary key cannot be built. -/
namespace Relational

/-- The constrained columns of a row: `cols` projects them, `key` reads the
primary key off them and `clash` says when two rows break a unique constraint. -/
class Row (ρ : Type) (γ κ : outParam Type) [DecidableEq κ] where
  cols : ρ → γ
  key : γ → κ
  clash : γ → γ → Prop
  [decClash : DecidableRel clash]
  symm : ∀ {a b}, clash a b → clash b a
  clash_of_key : ∀ {a b}, key a = key b → clash a b

variable {ρ γ κ : Type} [DecidableEq κ] [Row ρ γ κ]

/-- The primary key of a row. -/
def pk (r : ρ) : κ := Row.key ρ (Row.cols r)

/-- Two rows that no table holds together. -/
def Clash (r s : ρ) : Prop := Row.clash ρ (Row.cols r) (Row.cols s)

instance : DecidableRel (Clash : ρ → ρ → Prop) :=
  fun r s => Row.decClash (Row.cols r) (Row.cols s)

theorem clash_symm {r s : ρ} (h : Clash r s) : Clash s r := Row.symm h

theorem clash_of_pk {r s : ρ} (h : pk r = pk s) : Clash r s := Row.clash_of_key h

structure Table (ρ : Type) {γ κ : Type} [DecidableEq κ] [Row ρ γ κ] where
  rows : List ρ
  distinct : rows.Pairwise (fun r s => ¬ Clash r s)

instance : Membership ρ (Table ρ) := ⟨fun T r => r ∈ T.rows⟩

namespace Table

def empty : Table ρ := ⟨[], List.Pairwise.nil⟩

theorem mem_rows {T : Table ρ} {r : ρ} : r ∈ T.rows ↔ r ∈ T := Iff.rfl

@[simp] theorem not_mem_empty (r : ρ) : ¬ r ∈ (empty : Table ρ) := List.not_mem_nil

/-- A unique constraint determines the row. -/
theorem eq_of_clash (T : Table ρ) {r s : ρ} (hr : r ∈ T) (hs : s ∈ T) (h : Clash r s) :
    r = s := by
  by_contra hne
  have : Std.Symm (fun a b : ρ => ¬ Clash a b) := ⟨fun _ _ hn hc => hn (clash_symm hc)⟩
  exact T.distinct.forall hr hs hne h

theorem eq_of_pk (T : Table ρ) {r s : ρ} (hr : r ∈ T) (hs : s ∈ T) (h : pk r = pk s) :
    r = s := T.eq_of_clash hr hs (clash_of_pk h)

theorem nodup (T : Table ρ) : T.rows.Nodup :=
  T.distinct.imp (fun hn he => hn (clash_of_pk (congrArg pk he)))

theorem nodup_pk (T : Table ρ) : (T.rows.map pk).Nodup := by
  rw [List.Nodup, List.pairwise_map]
  exact T.distinct.imp (fun hn he => hn (clash_of_pk he))

theorem nodup_pk_filter (T : Table ρ) (p : ρ → Bool) : ((T.rows.filter p).map pk).Nodup :=
  T.nodup_pk.sublist (List.filter_sublist.map _)

/-! ### Lookup by primary key -/

def get (T : Table ρ) (k : κ) : Option ρ := T.rows.find? (fun r => decide (pk r = k))

theorem get_eq_some (T : Table ρ) {k : κ} {r : ρ} : T.get k = some r ↔ r ∈ T ∧ pk r = k := by
  constructor
  · intro h
    exact ⟨List.mem_of_find?_eq_some h, by simpa using List.find?_some h⟩
  · rintro ⟨hr, rfl⟩
    cases hg : T.get (pk r) with
    | none => exact absurd (List.find?_eq_none.mp hg r hr) (by simp)
    | some s =>
      have hk : pk s = pk r := by simpa using List.find?_some hg
      rw [T.eq_of_pk (List.mem_of_find?_eq_some hg) hr hk]

theorem get_mem {T : Table ρ} {k : κ} {r : ρ} (h : T.get k = some r) : r ∈ T :=
  (T.get_eq_some.mp h).1

theorem get_pk {T : Table ρ} {k : κ} {r : ρ} (h : T.get k = some r) : pk r = k :=
  (T.get_eq_some.mp h).2

theorem get_of_mem (T : Table ρ) {r : ρ} (h : r ∈ T) : T.get (pk r) = some r :=
  T.get_eq_some.mpr ⟨h, rfl⟩

theorem get_eq_none (T : Table ρ) {k : κ} : T.get k = none ↔ ∀ r ∈ T, pk r ≠ k := by
  simp only [get, List.find?_eq_none, decide_eq_true_eq]
  exact Iff.rfl

@[simp] theorem get_empty (k : κ) : (empty : Table ρ).get k = none := rfl

/-! ### INSERT -/

/-- `INSERT`: refused when the row clashes with a stored one. -/
def insert (T : Table ρ) (r : ρ) : Option (Table ρ) :=
  if h : ∀ s ∈ T.rows, ¬ Clash s r then
    some ⟨T.rows ++ [r], List.pairwise_append.mpr
      ⟨T.distinct, List.pairwise_singleton _ _, fun s hs t ht => by
        rw [List.mem_singleton.mp ht]
        exact h s hs⟩⟩
  else none

theorem insert_eq_some {T T' : Table ρ} {r : ρ} :
    T.insert r = some T' ↔ (∀ s ∈ T, ¬ Clash s r) ∧ T'.rows = T.rows ++ [r] := by
  unfold insert
  split
  · rename_i h
    constructor
    · intro he
      exact ⟨h, by rw [← Option.some.inj he]⟩
    · intro he
      cases T'
      simp only [Option.some.injEq, mk.injEq]
      exact he.2.symm
  · rename_i h
    exact ⟨fun he => absurd he (by simp), fun he => absurd he.1 h⟩

theorem insert_eq_none {T : Table ρ} {r : ρ} : T.insert r = none ↔ ∃ s ∈ T, Clash s r := by
  unfold insert
  split
  · rename_i h
    exact ⟨fun he => absurd he (by simp), fun ⟨s, hs, hc⟩ => absurd hc (h s hs)⟩
  · rename_i h
    have hclash : ∃ s ∈ T.rows, Clash s r := by simpa using h
    exact ⟨fun _ => hclash, fun _ => rfl⟩

theorem mem_insert {T T' : Table ρ} {r s : ρ} (h : T.insert r = some T') :
    s ∈ T' ↔ s ∈ T ∨ s = r := by
  rw [← mem_rows, (insert_eq_some.mp h).2, List.mem_append, List.mem_singleton]
  exact Iff.rfl

theorem insert_fresh {T T' : Table ρ} {r s : ρ} (h : T.insert r = some T') (hs : s ∈ T) :
    pk s ≠ pk r := fun he => (insert_eq_some.mp h).1 s hs (clash_of_pk he)

theorem get_insert {T T' : Table ρ} {r : ρ} (h : T.insert r = some T') (k : κ) :
    T'.get k = if pk r = k then some r else T.get k := by
  have hr := (insert_eq_some.mp h).2
  simp only [get, hr, List.find?_append, List.find?_singleton]
  by_cases hk : pk r = k
  · have hn : T.rows.find? (fun s => decide (pk s = k)) = none := by
      simp only [List.find?_eq_none, decide_eq_true_eq]
      intro s hs he
      exact insert_fresh h hs (he.trans hk.symm)
    simp [hk, hn]
  · simp [hk]

theorem get_insert_of_some {T T' : Table ρ} {r s : ρ} (h : T.insert r = some T') {k : κ}
    (hs : T.get k = some s) : T'.get k = some s := by
  obtain ⟨hm, hk⟩ := T.get_eq_some.mp hs
  exact T'.get_eq_some.mpr ⟨(mem_insert h).mpr (Or.inl hm), hk⟩

/-- One `INSERT` of several rows: the first refusal refuses them all. -/
def insertAll (T : Table ρ) (rs : List ρ) : Option (Table ρ) := rs.foldlM insert T

theorem rows_insertAll {T T' : Table ρ} {rs : List ρ} (h : T.insertAll rs = some T') :
    T'.rows = T.rows ++ rs := by
  induction rs generalizing T with
  | nil =>
    have he : T = T' := Option.some.inj h
    simp [he]
  | cons r rs ih =>
    simp only [insertAll, List.foldlM_cons, Option.bind_eq_bind, Option.bind_eq_some_iff] at h
    obtain ⟨S, hS, hrest⟩ := h
    rw [ih hrest, (insert_eq_some.mp hS).2]
    simp

theorem mem_insertAll {T T' : Table ρ} {rs : List ρ} (h : T.insertAll rs = some T') {s : ρ} :
    s ∈ T' ↔ s ∈ T ∨ s ∈ rs := by
  rw [← mem_rows, rows_insertAll h, List.mem_append]
  exact Iff.rfl

/-- Rows inserted together have keys no stored row has. -/
theorem insertAll_fresh {T T' : Table ρ} {rs : List ρ} (h : T.insertAll rs = some T')
    {r s : ρ} (hs : s ∈ T) (hr : r ∈ rs) : pk s ≠ pk r := by
  have hd := T'.distinct
  rw [rows_insertAll h] at hd
  exact fun he => (List.pairwise_append.mp hd).2.2 s hs r hr (clash_of_pk he)

theorem get_insertAll_of_some {T T' : Table ρ} {rs : List ρ} (h : T.insertAll rs = some T')
    {k : κ} {r : ρ} (hr : T.get k = some r) : T'.get k = some r := by
  obtain ⟨hm, hk⟩ := T.get_eq_some.mp hr
  exact T'.get_eq_some.mpr ⟨(mem_insertAll h).mpr (Or.inl hm), hk⟩

theorem get_insertAll_of_none {T T' : Table ρ} {rs : List ρ} (h : T.insertAll rs = some T')
    {k : κ} (hk : ∀ r ∈ rs, pk r ≠ k) : T'.get k = T.get k := by
  have hn : rs.find? (fun r => decide (pk r = k)) = none := by
    simpa [List.find?_eq_none] using hk
  rw [get, get, rows_insertAll h, List.find?_append, hn, Option.or_none]

/-! ### UPDATE -/

/-- An assignment that leaves the constrained columns alone. -/
def Keeps (f : ρ → ρ) : Prop := ∀ r, Row.cols (f r) = Row.cols r

theorem Keeps.pk_eq {f : ρ → ρ} (hf : Keeps f) (r : ρ) : pk (f r) = pk r :=
  congrArg (Row.key ρ) (hf r)

theorem Keeps.ite {f : ρ → ρ} (hf : Keeps f) (p : ρ → Bool) :
    Keeps (fun r => if p r then f r else r) := by
  intro r
  dsimp only
  split
  · exact hf r
  · rfl

def map (T : Table ρ) (f : ρ → ρ) (hf : Keeps f) : Table ρ :=
  ⟨T.rows.map f, by
    rw [List.pairwise_map]
    refine T.distinct.imp (fun {a b} hn hc => hn ?_)
    unfold Clash at hc ⊢
    rwa [hf a, hf b] at hc⟩

theorem mem_map {T : Table ρ} {f : ρ → ρ} (hf : Keeps f) {s : ρ} :
    s ∈ T.map f hf ↔ ∃ r ∈ T, f r = s := List.mem_map

theorem get_map (T : Table ρ) (f : ρ → ρ) (hf : Keeps f) (k : κ) :
    (T.map f hf).get k = (T.get k).map f := by
  cases hg : T.get k with
  | none =>
    rw [get_eq_none] at hg
    rw [Option.map_none, get_eq_none]
    intro s hs
    obtain ⟨r, hr, rfl⟩ := (mem_map hf).mp hs
    rw [hf.pk_eq]
    exact hg r hr
  | some r =>
    obtain ⟨hr, hk⟩ := T.get_eq_some.mp hg
    exact (T.map f hf).get_eq_some.mpr ⟨(mem_map hf).mpr ⟨r, hr, rfl⟩, (hf.pk_eq r).trans hk⟩

/-- `UPDATE … SET f WHERE p`. -/
def updateWhere (T : Table ρ) (p : ρ → Bool) (f : ρ → ρ)
    (hf : Keeps f := by exact fun _ => rfl) : Table ρ :=
  T.map (fun r => if p r then f r else r) (hf.ite p)

theorem rows_updateWhere (T : Table ρ) (p : ρ → Bool) (f : ρ → ρ) (hf : Keeps f) :
    (T.updateWhere p f hf).rows = T.rows.map (fun r => if p r then f r else r) := rfl

theorem mem_updateWhere {T : Table ρ} {p : ρ → Bool} {f : ρ → ρ} (hf : Keeps f) {s : ρ} :
    s ∈ T.updateWhere p f hf ↔ ∃ r ∈ T, (if p r then f r else r) = s := mem_map (hf.ite p)

theorem get_updateWhere (T : Table ρ) (p : ρ → Bool) (f : ρ → ρ) (hf : Keeps f) (k : κ) :
    (T.updateWhere p f hf).get k = (T.get k).map (fun r => if p r then f r else r) :=
  T.get_map _ _ k

/-- `UPDATE` of the one row with key `k`. -/
def update (T : Table ρ) (k : κ) (f : ρ → ρ)
    (hf : Keeps f := by exact fun _ => rfl) : Table ρ :=
  T.updateWhere (fun r => decide (pk r = k)) f hf

theorem mem_update {T : Table ρ} {k : κ} {f : ρ → ρ} (hf : Keeps f) {s : ρ} :
    s ∈ T.update k f hf ↔ ∃ r ∈ T, (if pk r = k then f r else r) = s := by
  simp only [update, mem_updateWhere, decide_eq_true_eq]

/-- After an update a row is the new version of the row with that key, or an old
row with another key. -/
theorem mem_update_of_get {T : Table ρ} {k : κ} {f : ρ → ρ} (hf : Keeps f) {r s : ρ}
    (hr : T.get k = some r) : s ∈ T.update k f hf ↔ s = f r ∨ s ∈ T ∧ pk s ≠ k := by
  obtain ⟨hmem, hk⟩ := T.get_eq_some.mp hr
  rw [mem_update]
  constructor
  · rintro ⟨x, hx, rfl⟩
    by_cases hxk : pk x = k
    · rw [if_pos hxk, T.eq_of_pk hx hmem (hxk.trans hk.symm)]
      exact Or.inl rfl
    · rw [if_neg hxk]
      exact Or.inr ⟨hx, hxk⟩
  · rintro (rfl | ⟨hs, hsk⟩)
    · exact ⟨r, hmem, if_pos hk⟩
    · exact ⟨s, hs, if_neg hsk⟩

theorem get_update (T : Table ρ) (k : κ) (f : ρ → ρ) (hf : Keeps f) (k' : κ) :
    (T.update k f hf).get k' = if k = k' then (T.get k').map f else T.get k' := by
  rw [update, get_updateWhere]
  cases hg : T.get k' with
  | none => simp
  | some r =>
    have hk := get_pk hg
    by_cases h : k = k'
    · simp [h, hk]
    · have hn : ¬ pk r = k := fun he => h (he.symm.trans hk)
      simp [h, hn]

theorem ext {T T' : Table ρ} (h : T.rows = T'.rows) : T = T' := by
  cases T
  cases T'
  simpa using h

/-- Only the assignment to the stored row matters. -/
theorem update_congr (T : Table ρ) {k : κ} {r : ρ} {f g : ρ → ρ} (hf : Keeps f) (hg : Keeps g)
    (hr : T.get k = some r) (h : f r = g r) : T.update k f hf = T.update k g hg := by
  refine ext (List.map_congr_left (fun s hs => ?_))
  by_cases hk : pk s = k
  · have hsr : s = r := T.eq_of_pk hs (get_mem hr) (hk.trans (get_pk hr).symm)
    simp [hsr, h]
  · simp [hk]

theorem update_self (T : Table ρ) {k : κ} {f : ρ → ρ} {hf : Keeps f}
    (h : ∀ r, T.get k = some r → f r = r) : T.update k f hf = T := by
  refine ext ?_
  refine (List.map_congr_left (fun s hs => ?_)).trans (List.map_id _)
  by_cases hk : pk s = k
  · simp [hk, h s (T.get_eq_some.mpr ⟨hs, hk⟩)]
  · simp [hk]

/-- Two assignments to the same row are one. -/
theorem update_update (T : Table ρ) (k : κ) (f g : ρ → ρ) (hf : Keeps f) (hg : Keeps g) :
    (T.update k f hf).update k g hg =
      T.update k (fun r => g (f r)) (fun r => (hg (f r)).trans (hf r)) := by
  simp only [update, updateWhere, map, mk.injEq, List.map_map]
  apply List.map_congr_left
  intro r _
  by_cases h : pk r = k
  · simp [h, hf.pk_eq]
  · simp [h]

/-! ### Tables over time -/

/-- Every row of `T` is still in `T'` under its key, as a row it relates to. -/
def Evolves (R : ρ → ρ → Prop) (T T' : Table ρ) : Prop :=
  ∀ k r, T.get k = some r → ∃ r', T'.get k = some r' ∧ R r r'

namespace Evolves
variable {R : ρ → ρ → Prop} {T T' T'' : Table ρ}

theorem refl (hR : ∀ r, R r r) (T : Table ρ) : Evolves R T T := fun _ r h => ⟨r, h, hR r⟩

theorem trans (hR : ∀ {a b c}, R a b → R b c → R a c) (h : Evolves R T T')
    (h' : Evolves R T' T'') : Evolves R T T'' := by
  intro k r hr
  obtain ⟨r', hr', hrr'⟩ := h k r hr
  obtain ⟨r'', hr'', hr'r''⟩ := h' k r' hr'
  exact ⟨r'', hr'', hR hrr' hr'r''⟩

theorem insert (hR : ∀ r, R r r) {r : ρ} (h : T.insert r = some T') : Evolves R T T' :=
  fun _ s hs => ⟨s, get_insert_of_some h hs, hR s⟩

theorem insertAll (hR : ∀ r, R r r) {rs : List ρ} (h : T.insertAll rs = some T') :
    Evolves R T T' := fun _ s hs => ⟨s, get_insertAll_of_some h hs, hR s⟩

theorem map {f : ρ → ρ} {h : Keeps f} (hR : ∀ r, R r (f r)) : Evolves R T (T.map f h) := by
  intro k r hr
  refine ⟨f r, ?_, hR r⟩
  rw [get_map, hr, Option.map_some]

theorem updateWhere {p : ρ → Bool} {f : ρ → ρ} {h : Keeps f} (hR : ∀ r, R r r)
    (hRf : ∀ r, R r (f r)) : Evolves R T (T.updateWhere p f h) := by
  apply map
  intro r
  split
  · exact hRf r
  · exact hR r

theorem update {k : κ} {f : ρ → ρ} {h : Keeps f} (hR : ∀ r, R r r) (hRf : ∀ r, R r (f r)) :
    Evolves R T (T.update k f h) := updateWhere hR hRf

theorem mem (h : Evolves R T T') {r : ρ} (hr : r ∈ T) : ∃ r' ∈ T', pk r' = pk r ∧ R r r' := by
  obtain ⟨r', hr', hR⟩ := h (pk r) r (T.get_of_mem hr)
  exact ⟨r', get_mem hr', get_pk hr', hR⟩

end Evolves

end Table

end Relational
