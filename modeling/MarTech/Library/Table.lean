import Mathlib.Data.List.Nodup
import Mathlib.Data.List.Perm.Basic
import Mathlib.Data.List.Perm.Subperm

universe u v

-- A row type together with the column (or columns) its unique index is on.
class Keyed (ρ : Type u) (κ : outParam (Type v)) where
  key : ρ → κ

-- A table is the list of its rows in the order they were first written. That no two rows share a
-- key is part of the type, as it is part of the schema.
@[ext]
structure Table (ρ : Type u) {κ : Type v} [Keyed ρ κ] where
  rows   : List ρ
  unique : (rows.map Keyed.key).Nodup

namespace Table

open Keyed

variable {ρ : Type u} {κ : Type v} [Keyed ρ κ]

instance : EmptyCollection (Table ρ) where
  emptyCollection := ⟨[], List.nodup_nil⟩

instance : Membership ρ (Table ρ) where
  mem t r := r ∈ t.rows

@[simp]
theorem mem_rows {t : Table ρ} {r : ρ} : r ∈ t.rows ↔ r ∈ t :=
  .rfl

theorem key_injective {t : Table ρ} {r₁ r₂ : ρ} (h₁ : r₁ ∈ t) (h₂ : r₂ ∈ t)
    (h : key r₁ = key r₂) : r₁ = r₂ :=
  List.inj_on_of_nodup_map t.unique h₁ h₂ h

theorem nodup_rows (t : Table ρ) : t.rows.Nodup :=
  t.unique.of_map _

-- `DELETE`.
def delete (t : Table ρ) (p : ρ → Bool) : Table ρ where
  rows   := t.rows.filter (!p ·)
  unique := List.filter_sublist.map key |>.nodup t.unique

@[simp]
theorem mem_delete {t : Table ρ} {p : ρ → Bool} {r : ρ} : r ∈ t.delete p ↔ r ∈ t ∧ p r = false := by
  simp [delete, ← mem_rows]

-- The rows one by one, by a function that keeps the key.
def map {ρ' : Type*} [Keyed ρ' κ] (t : Table ρ) (f : ρ → ρ') (hf : ∀ r, key (f r) = key r) :
    Table ρ' where
  rows   := t.rows.map f
  unique := by simpa [List.map_map, Function.comp_def, hf] using t.unique

variable [DecidableEq κ]

def get (t : Table ρ) (k : κ) : Option ρ :=
  t.rows.find? (key · = k)

-- Overwrites the row which has the same key as `r`, if there is one.
def set (t : Table ρ) (r : ρ) : Table ρ where
  rows   := t.rows.map fun x => if key x = key r then r else x
  unique := by
    have h : key ∘ (fun x => if key x = key r then r else x) = (key : ρ → κ) := by
      ext x
      simp only [Function.comp]
      split <;> simp_all
    simpa [List.map_map, h] using t.unique

-- `UPDATE ... WHERE key = k`. The statement must not assign the key.
def update (t : Table ρ) (k : κ) (f : ρ → ρ) : Table ρ :=
  match t.get k with
  | none   => t
  | some r => t.set (f r)

-- `INSERT ... ON CONFLICT DO NOTHING`.
def insert (t : Table ρ) (r : ρ) : Table ρ :=
  if h : t.rows.all (key · ≠ key r) then
    { rows   := t.rows ++ [r]
      unique := by
        rw [List.map_append, List.nodup_append]
        simp only [List.all_eq_true, decide_eq_true_eq] at h
        refine ⟨t.unique, by simp, fun a ha b hb => ?_⟩
        obtain ⟨x, hx, rfl⟩ := List.mem_map.mp ha
        simp only [List.map_cons, List.map_nil, List.mem_singleton] at hb
        exact hb ▸ h x hx }
  else
    t

-- `INSERT ... ON CONFLICT DO UPDATE` with every column assigned.
def upsert (t : Table ρ) (r : ρ) : Table ρ :=
  (t.insert r).set r

theorem get_eq_some_iff {t : Table ρ} {k : κ} {r : ρ} : t.get k = some r ↔ r ∈ t ∧ key r = k where
  mp h  := ⟨List.mem_of_find?_eq_some h, by simpa using List.find?_some h⟩
  mpr h := by
    cases hf : t.get k
    case none =>
      simp only [get, List.find?_eq_none, decide_eq_true_eq] at hf
      exact absurd h.right <| hf r h.left
    case some r' =>
      have hm : r' ∈ t := List.mem_of_find?_eq_some hf
      have hk : key r' = k := by simpa using List.find?_some hf
      rw [key_injective hm h.left <| hk.trans h.right.symm]

theorem get_eq_none_iff {t : Table ρ} {k : κ} : t.get k = none ↔ ∀ r ∈ t, key r ≠ k := by
  simp [get, ← mem_rows]

theorem key_of_get {t : Table ρ} {k : κ} {r : ρ} (h : t.get k = some r) : key r = k :=
  get_eq_some_iff.mp h |>.right

theorem mem_of_get {t : Table ρ} {k : κ} {r : ρ} (h : t.get k = some r) : r ∈ t :=
  get_eq_some_iff.mp h |>.left

theorem mem_iff_get {t : Table ρ} {r : ρ} : r ∈ t ↔ t.get (key r) = some r := by
  simp [get_eq_some_iff]

@[simp]
theorem get_empty (k : κ) : (∅ : Table ρ).get k = none :=
  rfl

theorem get_set (t : Table ρ) (r : ρ) (k : κ) :
    (t.set r).get k = if key r = k then (t.get k).map fun _ => r else t.get k := by
  simp only [get, set, List.find?_map]
  have hc : ∀ x : ρ, key (if key x = key r then r else x) = key x := by
    intro x
    split <;> simp_all
  simp only [Function.comp_def, hc]
  cases hf : t.rows.find? fun x => decide (key x = k)
  case none   => simp
  case some x =>
    have hx : key x = k := by simpa using List.find?_some hf
    simp only [Option.map_some, hx, eq_comm (a := k)]
    split <;> rfl

theorem get_update (t : Table ρ) (k : κ) {f : ρ → ρ} (hf : ∀ r, key (f r) = key r) (k' : κ) :
    (t.update k f).get k' = if k = k' then (t.get k').map f else t.get k' := by
  cases h : t.get k
  case none =>
    simp only [update, h]
    split
    case isTrue e => simp [← e, h]
    case isFalse  => rfl
  case some r =>
    have hk := key_of_get h
    simp only [update, h, get_set, hf, hk]
    split
    case isTrue e => simp [← e, h]
    case isFalse  => rfl

theorem rows_update (t : Table ρ) (k : κ) {f : ρ → ρ} (hf : ∀ r, key (f r) = key r) :
    (t.update k f).rows = t.rows.map fun r => if key r = k then f r else r := by
  cases h : t.get k
  case none =>
    have hk : ∀ r ∈ t.rows, ¬key r = k := get_eq_none_iff.mp h
    simp only [update, h]
    exact (List.map_congr_left fun r hr => if_neg (hk r hr)).trans (List.map_id _) |>.symm
  case some r =>
    simp only [update, h, set, hf, key_of_get h]
    refine List.map_congr_left fun x hx => if_ctx_congr Iff.rfl (fun hk => ?_) fun _ => rfl
    rw [key_injective hx (mem_of_get h) (hk.trans (key_of_get h).symm)]

theorem length_update (t : Table ρ) (k : κ) (f : ρ → ρ) :
    (t.update k f).rows.length = t.rows.length := by
  unfold update
  split
  case h_1 => rfl
  case h_2 => exact List.length_map _

theorem isSome_get_update (t : Table ρ) (k : κ) {f : ρ → ρ} (hf : ∀ r, key (f r) = key r) (k' : κ) :
    ((t.update k f).get k').isSome = (t.get k').isSome := by
  rw [get_update t k hf]
  split <;> simp

theorem get_insert (t : Table ρ) (r : ρ) (k : κ) :
    (t.insert r).get k = (t.get k).or (if key r = k then some r else none) := by
  unfold insert
  split
  case isTrue =>
    simp only [get, List.find?_append, List.find?_cons, List.find?_nil]
    split <;> simp_all
  case isFalse h =>
    simp only [List.all_eq_true, decide_eq_true_eq, not_forall, not_not] at h
    obtain ⟨x, hm, hx⟩ := h
    split
    case isTrue e => simp [get_eq_some_iff.mpr ⟨hm, hx.trans e⟩]
    case isFalse  => simp

theorem get_insert_of_none {t : Table ρ} {r : ρ} (h : t.get (key r) = none) (k : κ) :
    (t.insert r).get k = if key r = k then some r else t.get k := by
  rw [get_insert]
  split
  case isTrue e => simp [← e, h]
  case isFalse  => simp

-- Rows that were there before an insertion are there after it.
theorem get_insert_of_some {t : Table ρ} {r x : ρ} {k : κ} (h : t.get k = some x) :
    (t.insert r).get k = some x := by
  simp [get_insert, h]

theorem get_upsert (t : Table ρ) (r : ρ) (k : κ) :
    (t.upsert r).get k = if key r = k then some r else t.get k := by
  simp only [upsert, get_set, get_insert]
  split
  case isTrue => cases t.get k <;> simp
  case isFalse => simp

-- Of the rows with one key that are written one after another, the last one stays.
theorem get_upserts (t : Table ρ) (rs : List ρ) (k : κ) :
    (rs.foldl upsert t).get k = (rs.reverse.find? (key · = k)).or (t.get k) := by
  induction rs generalizing t
  case nil => rfl
  case cons r rs hi =>
    rw [List.foldl_cons, hi, get_upsert, List.reverse_cons, List.find?_append, Option.or_assoc]
    by_cases e : key r = k <;> simp [e]

theorem get_delete (t : Table ρ) (p : ρ → Bool) (k : κ) :
    (t.delete p).get k = (t.get k).filter (!p ·) := by
  ext r
  simp only [get_eq_some_iff, Option.filter_eq_some_iff, mem_delete, Bool.not_eq_eq_eq_not,
    Bool.not_true]
  tauto

theorem mem_set {t : Table ρ} {r x : ρ} : x ∈ t.set r ↔
    (x ∈ t ∧ key x ≠ key r) ∨ (x = r ∧ (t.get (key r)).isSome) := by
  rw [mem_iff_get, get_set]
  split
  case isTrue h =>
    simp only [← h, ne_eq, not_true_eq_false, and_false, false_or, Option.map_eq_some_iff,
      Option.isSome_iff_exists]
    exact ⟨fun ⟨y, hy, e⟩ => ⟨e.symm, y, hy⟩, fun ⟨e, y, hy⟩ => ⟨y, hy, e.symm⟩⟩
  case isFalse h =>
    rw [← mem_iff_get]
    constructor
    · exact fun hx => .inl ⟨hx, Ne.symm h⟩
    · rintro (⟨hx, -⟩ | ⟨rfl, -⟩)
      · exact hx
      · exact absurd rfl h

theorem mem_insert {t : Table ρ} {r x : ρ} (h : t.get (key r) = none) :
    x ∈ t.insert r ↔ x ∈ t ∨ x = r := by
  rw [mem_iff_get, get_insert_of_none h]
  split
  case isTrue e =>
    have : x ∉ t := fun hx => get_eq_none_iff.mp h x hx e.symm
    simp [this, eq_comm]
  case isFalse e =>
    rw [← mem_iff_get]
    exact ⟨.inl, fun hx => hx.resolve_right (e <| · ▸ rfl)⟩

theorem mem_insert_of_mem {t : Table ρ} {r x : ρ} (h : x ∈ t) : x ∈ t.insert r :=
  mem_iff_get.mpr <| get_insert_of_some <| mem_iff_get.mp h

theorem of_mem_insert {t : Table ρ} {r x : ρ} (h : x ∈ t.insert r) : x ∈ t ∨ x = r := by
  rw [mem_iff_get, get_insert, Option.or_eq_some_iff] at h
  refine h.imp mem_of_get fun ⟨_, h⟩ => ?_
  split at h
  case isTrue  => exact (Option.some.inj h).symm
  case isFalse => cases h

def insertAll (t : Table ρ) (rs : List ρ) : Table ρ :=
  rs.foldl insert t

theorem insertAll_concat (t : Table ρ) (rs : List ρ) (r : ρ) :
    t.insertAll (rs ++ [r]) = (t.insertAll rs).insert r := by
  simp [insertAll]

theorem get_insertAll (t : Table ρ) (rs : List ρ) (k : κ) :
    (t.insertAll rs).get k = (t.get k).or (rs.find? (key · = k)) := by
  induction rs generalizing t
  case nil => simp [insertAll]
  case cons r rs hi =>
    have h : t.insertAll (r :: rs) = (t.insert r).insertAll rs := rfl
    rw [h, hi, get_insert, List.find?_cons]
    cases t.get k <;> by_cases e : key r = k <;> simp [e]

theorem mem_insertAll_of_mem {t : Table ρ} {rs : List ρ} {x : ρ} (h : x ∈ t) :
    x ∈ t.insertAll rs := by
  simp [mem_iff_get, get_insertAll, mem_iff_get.mp h]

theorem of_mem_insertAll {t : Table ρ} {rs : List ρ} {x : ρ} (h : x ∈ t.insertAll rs) :
    x ∈ t ∨ t.get (key x) = none ∧ x ∈ rs := by
  rw [mem_iff_get, get_insertAll, Option.or_eq_some_iff] at h
  exact h.imp mem_iff_get.mpr (.imp_right List.mem_of_find?_eq_some)

theorem mem_insertAll {t : Table ρ} {rs : List ρ} {r : ρ} (hn : (rs.map key).Nodup) (hr : r ∈ rs)
    (h : t.get (key r) = none) : r ∈ t.insertAll rs := by
  rw [mem_iff_get, get_insertAll, h, Option.none_or]
  cases hf : rs.find? (key · = key r)
  case none => simpa using List.find?_eq_none.mp hf r hr
  case some x =>
    have hx : key x = key r := by simpa using List.find?_some hf
    rw [List.inj_on_of_nodup_map hn (List.mem_of_find?_eq_some hf) hr hx]

theorem rows_insert {t : Table ρ} {r : ρ} (h : t.get (key r) = none) :
    (t.insert r).rows = t.rows ++ [r] := by
  have := get_eq_none_iff.mp h
  simp only [insert]
  split
  case isTrue    => rfl
  case isFalse c => simp_all [← mem_rows]

theorem insert_of_isSome {t : Table ρ} {r : ρ} (h : (t.get (key r)).isSome) : t.insert r = t := by
  obtain ⟨x, hx⟩ := Option.isSome_iff_exists.mp h
  refine dif_neg fun c => ?_
  simpa [key_of_get hx] using List.all_eq_true.mp c x (mem_of_get hx)

-- A unique index finds all rows with the key.
theorem filter_key (t : Table ρ) (k : κ) : t.rows.filter (key · = k) = (t.get k).toList := by
  have h : ((t.rows.filter (key · = k)).map key).Nodup := (List.filter_sublist.map key).nodup t.unique
  have hk : ∀ r ∈ t.rows.filter (key · = k), key r = k := fun r hr => by
    simpa using List.of_mem_filter hr
  rw [get, ← List.head?_filter]
  match hf : t.rows.filter (key · = k) with
  | []            => rfl
  | [_]           => rfl
  | r₁ :: r₂ :: _ =>
    rw [hf] at h hk
    have e : key r₁ = key r₂ := (hk r₁ (by simp)).trans (hk r₂ (by simp)).symm
    simp [e] at h

theorem rows_insertAll {t : Table ρ} {rs : List ρ} (hn : (rs.map key).Nodup)
    (h : ∀ r ∈ rs, t.get (key r) = none) : (t.insertAll rs).rows = t.rows ++ rs := by
  induction rs generalizing t
  case nil => simp [insertAll]
  case cons r rs hi =>
    obtain ⟨hr, hn⟩ := List.nodup_cons.mp hn
    have hnone := h r List.mem_cons_self
    have hrest : ∀ x ∈ rs, (t.insert r).get (key x) = none := by
      intro x hx
      have : key r ≠ key x := fun e => hr (e ▸ List.mem_map_of_mem hx)
      rw [get_insert_of_none hnone, if_neg this]
      exact h x (List.mem_cons_of_mem _ hx)
    calc (t.insertAll (r :: rs)).rows
      _ = ((t.insert r).insertAll rs).rows := rfl
      _ = t.rows ++ r :: rs := by simp [hi hn hrest, rows_insert hnone]

section Map

variable {ρ' : Type*} [Keyed ρ' κ] (f : ρ → ρ') (hf : ∀ r, key (f r) = key r)

theorem get_map (t : Table ρ) (k : κ) : (t.map f hf).get k = (t.get k).map f := by
  simp only [get, map, List.find?_map, Function.comp_def, hf]

theorem map_set (t : Table ρ) (r : ρ) : (t.set r).map f hf = (t.map f hf).set (f r) := by
  ext1
  simp only [map, set, List.map_map, hf]
  refine List.map_congr_left fun x _ => ?_
  simp only [Function.comp, hf]
  split <;> rfl

theorem map_insert (t : Table ρ) (r : ρ) : (t.insert r).map f hf = (t.map f hf).insert (f r) := by
  cases h : t.get (key r)
  case some => rw [insert_of_isSome, insert_of_isSome] <;> simp [get_map, hf, h]
  case none =>
    have h' : (t.map f hf).get (key (f r)) = none := by simp [get_map, hf, h]
    ext1
    rw [rows_insert h']
    simp [map, rows_insert h]

omit [DecidableEq κ] in
theorem map_delete (t : Table ρ) (p : ρ → Bool) (p' : ρ' → Bool) (h : ∀ r, p' (f r) = p r) :
    (t.delete p).map f hf = (t.map f hf).delete p' := by
  ext1
  simp [map, delete, List.filter_map, Function.comp_def, h]

end Map

theorem insert_ne_self {t : Table ρ} {r : ρ} (h : t.get (key r) = none) : t.insert r ≠ t := by
  intro e
  have hrows := congrArg (·.rows.length) e
  simp [rows_insert h] at hrows

theorem insert_injective {t : Table ρ} {r r' : ρ} (h : t.get (key r) = none)
    (h' : t.get (key r') = none) (e : t.insert r = t.insert r') : r = r' := by
  have hrows := congrArg Table.rows e
  rw [rows_insert h, rows_insert h'] at hrows
  simpa using hrows

theorem rows_upsert {t : Table ρ} {r : ρ} (h : t.get (key r) = none) :
    (t.upsert r).rows = t.rows ++ [r] := by
  have hne : ∀ x ∈ t.rows, key x ≠ key r := get_eq_none_iff.mp h
  have hmap : t.rows.map (fun x => if key x = key r then r else x) = t.rows :=
    (List.map_congr_left fun x hx => if_neg (hne x hx)).trans (List.map_id _)
  simp [upsert, set, rows_insert h, hmap]

-- Of rows that are kept nothing is lost that `p` and `f` tell.
theorem subperm_of_kept {β : Type*} {t t' : Table ρ} {p : ρ → Bool} {f : ρ → β}
    (h : ∀ k r, t.get k = some r → ∃ r', t'.get k = some r' ∧ p r' = p r ∧ f r' = f r) :
    ((t.rows.filter p).map f).Subperm ((t'.rows.filter p).map f) := by
  have hnodup : ((t.rows.filter p).map fun r => (key r, f r)).Nodup := by
    refine .of_map Prod.fst ?_
    rw [List.map_map]
    exact (List.filter_sublist.map key).nodup t.unique
  have hsub : ((t.rows.filter p).map fun r => (key r, f r)) ⊆
      (t'.rows.filter p).map fun r => (key r, f r) := by
    intro x hx
    obtain ⟨r, hr, rfl⟩ := List.mem_map.mp hx
    obtain ⟨hm, hp⟩ := List.mem_filter.mp hr
    obtain ⟨r', hg, hp', hf⟩ := h (key r) r (mem_iff_get.mp hm)
    refine List.mem_map.mpr ⟨r', List.mem_filter.mpr ⟨mem_of_get hg, hp'.trans hp⟩, ?_⟩
    rw [key_of_get hg, hf]
  obtain ⟨l, hperm, hl⟩ := hnodup.subperm hsub
  refine ⟨l.map Prod.snd, ?_, ?_⟩
  · simpa [Function.comp_def] using hperm.map Prod.snd
  · simpa [Function.comp_def] using hl.map Prod.snd

end Table
