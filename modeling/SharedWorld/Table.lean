/-! # Tables

Finite maps kept as one list of entries in strictly increasing key order, so two
tables with the same look-ups are equal and iteration follows the keys.
-/

namespace SharedWorld

/-- Keys carry a decidable strict linear order. -/
class Key (κ : Type) where
  before : κ → κ → Bool
  irrefl : ∀ a, before a a = false
  trans : ∀ {a b c}, before a b = true → before b c = true → before a c = true
  total : ∀ {a b}, before a b = false → before b a = false → a = b

namespace Key

/-- A ranking by a linearly ordered type orders the keys. -/
@[reducible] def ofRank {κ ρ : Type} [LT ρ] [DecidableLT ρ] (rank : κ → ρ)
    (irrefl : ∀ a : ρ, ¬ a < a) (trans : ∀ {a b c : ρ}, a < b → b < c → a < c)
    (total : ∀ {a b : κ}, ¬ rank a < rank b → ¬ rank b < rank a → a = b) : Key κ where
  before a b := decide (rank a < rank b)
  irrefl a := decide_eq_false (irrefl (rank a))
  trans h₁ h₂ := decide_eq_true (trans (of_decide_eq_true h₁) (of_decide_eq_true h₂))
  total h₁ h₂ := total (of_decide_eq_false h₁) (of_decide_eq_false h₂)

instance : Key String :=
  ofRank id String.lt_irrefl String.lt_trans
    fun h₁ h₂ => String.le_antisymm (String.not_lt.mp h₂) (String.not_lt.mp h₁)

end Key

structure Table (κ α : Type) [Key κ] where
  entries : List (κ × α)
  sorted : entries.Pairwise fun e f => Key.before e.1 f.1 = true

namespace Table

variable {κ α β : Type} [Key κ]

def empty : Table κ α := ⟨[], .nil⟩

instance : EmptyCollection (Table κ α) := ⟨empty⟩

instance : Inhabited (Table κ α) := ⟨empty⟩

def size (t : Table κ α) : Nat := t.entries.length

def isEmpty (t : Table κ α) : Bool := t.entries.isEmpty

def keys (t : Table κ α) : List κ := t.entries.map (·.1)

def values (t : Table κ α) : List α := t.entries.map (·.2)

def insertEntry (k : κ) (a : α) : List (κ × α) → List (κ × α)
  | [] => [(k, a)]
  | e :: es =>
    if Key.before k e.1 then (k, a) :: e :: es
    else if Key.before e.1 k then e :: insertEntry k a es
    else (k, a) :: es

theorem mem_insertEntry {k : κ} {a : α} {es : List (κ × α)} {e : κ × α}
    (h : e ∈ insertEntry k a es) : e = (k, a) ∨ e ∈ es := by
  induction es with
  | nil => exact Or.inl (by simpa [insertEntry] using h)
  | cons f es ih =>
    unfold insertEntry at h
    split at h
    · simpa using h
    · split at h
      · rcases List.mem_cons.mp h with h | h
        · exact Or.inr (by simp [h])
        · exact (ih h).imp id (List.mem_cons_of_mem _)
      · rcases List.mem_cons.mp h with h | h
        · exact Or.inl h
        · exact Or.inr (List.mem_cons_of_mem _ h)

theorem sorted_insertEntry (k : κ) (a : α) {es : List (κ × α)}
    (h : es.Pairwise fun e f => Key.before e.1 f.1 = true) :
    (insertEntry k a es).Pairwise fun e f => Key.before e.1 f.1 = true := by
  induction es with
  | nil => simp [insertEntry]
  | cons f es ih =>
    have hf := List.pairwise_cons.mp h
    unfold insertEntry
    split
    · rename_i hk
      refine List.pairwise_cons.mpr ⟨fun e he => ?_, h⟩
      rcases List.mem_cons.mp he with rfl | he
      · exact hk
      · exact Key.trans hk (hf.1 e he)
    · split
      · rename_i hk
        refine List.pairwise_cons.mpr ⟨fun e he => ?_, ih hf.2⟩
        rcases mem_insertEntry he with rfl | he
        · exact hk
        · exact hf.1 e he
      · rename_i h₁ h₂
        have : k = f.1 := Key.total (by simpa using h₁) (by simpa using h₂)
        exact List.pairwise_cons.mpr ⟨fun e he => this ▸ hf.1 e he, hf.2⟩

theorem mem_insertEntry_iff {k : κ} {a : α} {es : List (κ × α)} {e : κ × α}
    (h : es.Pairwise fun e f => Key.before e.1 f.1 = true) :
    e ∈ insertEntry k a es ↔ e = (k, a) ∨ e.1 ≠ k ∧ e ∈ es := by
  induction es with
  | nil => simp [insertEntry]
  | cons f es ih =>
    have hf := List.pairwise_cons.mp h
    have hne : ∀ {g : κ × α}, g ∈ es → g.1 ≠ f.1 := fun hg hk => by
      have := hf.1 _ hg
      simp [hk, Key.irrefl] at this
    unfold insertEntry
    split
    · rename_i hk
      have : ∀ g ∈ f :: es, g.1 ≠ k := by
        rintro g hg rfl
        rcases List.mem_cons.mp hg with rfl | hg
        · simp [Key.irrefl] at hk
        · have := Key.trans hk (hf.1 g hg)
          simp [Key.irrefl] at this
      rw [List.mem_cons]
      exact or_congr_right ⟨fun hg => ⟨this e hg, hg⟩, And.right⟩
    · split
      · rename_i h₁ hk
        have hfk : f.1 ≠ k := fun hk' => by simp [hk', Key.irrefl] at hk
        rw [List.mem_cons, ih hf.2, List.mem_cons]
        constructor
        · rintro (rfl | rfl | h')
          · exact Or.inr ⟨hfk, Or.inl rfl⟩
          · exact Or.inl rfl
          · exact Or.inr ⟨h'.1, Or.inr h'.2⟩
        · rintro (rfl | ⟨h', rfl | h''⟩)
          · exact Or.inr (Or.inl rfl)
          · exact Or.inl rfl
          · exact Or.inr (Or.inr ⟨h', h''⟩)
      · rename_i h₁ h₂
        have hk : k = f.1 := Key.total (by simpa using h₁) (by simpa using h₂)
        rw [List.mem_cons, List.mem_cons]
        constructor
        · rintro (rfl | h')
          · exact Or.inl rfl
          · exact Or.inr ⟨hk ▸ hne h', Or.inr h'⟩
        · rintro (rfl | ⟨h', rfl | h''⟩)
          · exact Or.inl rfl
          · exact absurd hk.symm h'
          · exact Or.inr h''

theorem length_insertEntry {k : κ} {a : α} {es : List (κ × α)} (h : ∀ e ∈ es, e.1 ≠ k) :
    (insertEntry k a es).length = es.length + 1 := by
  induction es with
  | nil => rfl
  | cons f es ih =>
    unfold insertEntry
    split
    · rfl
    · split
      · rw [List.length_cons, ih fun e he => h e (List.mem_cons_of_mem _ he), List.length_cons]
      · next h₁ h₂ =>
        have : k = f.1 := Key.total (by simpa using h₁) (by simpa using h₂)
        exact absurd this.symm (h f List.mem_cons_self)

def insert (t : Table κ α) (k : κ) (a : α) : Table κ α :=
  ⟨insertEntry k a t.entries, sorted_insertEntry k a t.sorted⟩

def mapWithKey (f : κ → α → β) (t : Table κ α) : Table κ β :=
  ⟨t.entries.map fun e => (e.1, f e.1 e.2), t.sorted.map _ fun _ _ h => h⟩

def map (f : α → β) (t : Table κ α) : Table κ β := t.mapWithKey fun _ => f

theorem nodup_keys (t : Table κ α) : t.keys.Nodup :=
  List.pairwise_map.mpr (t.sorted.imp fun h he => by simp [he, Key.irrefl] at h)

theorem values_map (f : α → β) (t : Table κ α) : (t.map f).values = t.values.map f := by
  simp [values, map, mapWithKey]

variable [DecidableEq κ]

def get? (t : Table κ α) (k : κ) : Option α := (t.entries.find? (·.1 = k)).map (·.2)

def contains (t : Table κ α) (k : κ) : Bool := (t.get? k).isSome

def erase (t : Table κ α) (k : κ) : Table κ α :=
  ⟨t.entries.filter (·.1 ≠ k), t.sorted.filter _⟩

def modify (t : Table κ α) (k : κ) (f : α → α) : Table κ α :=
  t.mapWithKey fun k' a => if k' = k then f a else a

theorem get?_eq_some_iff {t : Table κ α} {k : κ} {a : α} :
    t.get? k = some a ↔ (k, a) ∈ t.entries := by
  obtain ⟨es, h⟩ := t
  simp only [get?]
  induction es with
  | nil => simp
  | cons e es ih =>
    have he := List.pairwise_cons.mp h
    by_cases hk : e.1 = k
    · simp only [List.find?_cons, hk, decide_true, Option.map_some, Option.some.injEq,
        List.mem_cons]
      constructor
      · rintro rfl
        exact Or.inl (by rw [← hk])
      · rintro (h' | h')
        · rw [← h']
        · have := he.1 _ h'
          simp [hk, Key.irrefl] at this
    · simp only [List.find?_cons, hk, decide_false, List.mem_cons]
      rw [ih he.2]
      constructor
      · exact Or.inr
      · rintro (rfl | h')
        · exact absurd rfl hk
        · exact h'

@[simp, grind =] theorem get?_empty (k : κ) : (∅ : Table κ α).get? k = none := rfl

theorem ext_get? {t u : Table κ α} (h : ∀ k, t.get? k = u.get? k) : t = u := by
  have hm : ∀ e, e ∈ t.entries ↔ e ∈ u.entries := fun e => by
    rw [← get?_eq_some_iff (t := t) (k := e.1) (a := e.2), h, get?_eq_some_iff]
  obtain ⟨es, hs⟩ := t
  obtain ⟨fs, hu⟩ := u
  simp only [Table.mk.injEq]
  simp only at hm
  clear h
  induction es generalizing fs with
  | nil =>
    cases fs with
    | nil => rfl
    | cons f fs => exact absurd ((hm f).mpr (by simp)) (by simp)
  | cons e es ih =>
    cases fs with
    | nil => exact absurd ((hm e).mp (by simp)) (by simp)
    | cons f fs =>
      have hs' := List.pairwise_cons.mp hs
      have hu' := List.pairwise_cons.mp hu
      have hef : e = f := by
        rcases List.mem_cons.mp ((hm e).mp (by simp)) with h | h
        · exact h
        rcases List.mem_cons.mp ((hm f).mpr (by simp)) with h' | h'
        · exact h'.symm
        · have := Key.trans (hs'.1 f h') (hu'.1 e h)
          simp [Key.irrefl] at this
      subst hef
      congr 1
      refine ih hs'.2 fs hu'.2 fun g => ?_
      have := hm g
      simp only [List.mem_cons] at this
      constructor
      · intro hg
        rcases this.mp (Or.inr hg) with rfl | h
        · have := hs'.1 _ hg
          simp [Key.irrefl] at this
        · exact h
      · intro hg
        rcases this.mpr (Or.inr hg) with rfl | h
        · have := hu'.1 _ hg
          simp [Key.irrefl] at this
        · exact h

@[grind =] theorem get?_insert (t : Table κ α) (k k' : κ) (a : α) :
    (t.insert k a).get? k' = if k' = k then some a else t.get? k' := by
  apply Option.ext
  intro b
  rw [get?_eq_some_iff]
  simp only [insert]
  rw [mem_insertEntry_iff t.sorted]
  by_cases h : k' = k
  · simp [h, eq_comm]
  · simp [h, get?_eq_some_iff]

@[grind =] theorem get?_erase (t : Table κ α) (k k' : κ) :
    (t.erase k).get? k' = if k' = k then none else t.get? k' := by
  apply Option.ext
  intro b
  rw [get?_eq_some_iff]
  simp only [erase, List.mem_filter]
  by_cases h : k' = k
  · simp [h]
  · simp [h, get?_eq_some_iff]

theorem get?_mapWithKey (f : κ → α → β) (t : Table κ α) (k : κ) :
    (t.mapWithKey f).get? k = (t.get? k).map (f k) := by
  apply Option.ext
  intro b
  rw [get?_eq_some_iff, Option.map_eq_some_iff]
  simp only [mapWithKey, List.mem_map, Prod.mk.injEq, Prod.exists, get?_eq_some_iff]
  constructor
  · rintro ⟨k', a, h, rfl, rfl⟩
    exact ⟨a, h, rfl⟩
  · rintro ⟨a, h, rfl⟩
    exact ⟨k, a, h, rfl, rfl⟩

@[simp, grind =] theorem get?_map (f : α → β) (t : Table κ α) (k : κ) :
    (t.map f).get? k = (t.get? k).map f :=
  get?_mapWithKey (fun _ => f) t k

@[grind =] theorem get?_modify (t : Table κ α) (k k' : κ) (f : α → α) :
    (t.modify k f).get? k' = if k' = k then (t.get? k').map f else t.get? k' := by
  rw [modify, get?_mapWithKey]
  by_cases h : k' = k <;> simp [h]

@[simp] theorem isSome_get?_modify (t : Table κ α) (k k' : κ) (f : α → α) :
    ((t.modify k f).get? k').isSome = (t.get? k').isSome := by
  rw [get?_modify]
  split
  · rw [Option.isSome_map]
  · rfl

@[simp] theorem get?_insert_self (t : Table κ α) (k : κ) (a : α) :
    (t.insert k a).get? k = some a := by
  rw [get?_insert, if_pos rfl]

@[grind =] theorem contains_eq (t : Table κ α) (k : κ) : t.contains k = (t.get? k).isSome := rfl

theorem get?_insert_eq_some_iff {t : Table κ α} {k k' : κ} {a b : α} :
    (t.insert k a).get? k' = some b ↔ k' = k ∧ a = b ∨ k' ≠ k ∧ t.get? k' = some b := by
  rw [get?_insert]
  by_cases h : k' = k <;> simp [h]

theorem get?_erase_eq_some_iff {t : Table κ α} {k k' : κ} {b : α} :
    (t.erase k).get? k' = some b ↔ k' ≠ k ∧ t.get? k' = some b := by
  rw [get?_erase]
  by_cases h : k' = k <;> simp [h]

theorem isSome_of_erase {t : Table κ α} {k k' : κ} (h : ((t.erase k).get? k').isSome) :
    (t.get? k').isSome := by
  obtain ⟨a, ha⟩ := Option.isSome_iff_exists.mp h
  exact Option.isSome_of_eq_some (get?_erase_eq_some_iff.mp ha).2

theorem erase_eq_self {t : Table κ α} {k : κ} (h : t.get? k = none) : t.erase k = t := by
  refine ext_get? fun k' => ?_
  rw [get?_erase]
  split
  · next hk => rw [hk, h]
  · rfl

theorem insert_eq_self {t : Table κ α} {k : κ} {a : α} (h : t.get? k = some a) :
    t.insert k a = t := by
  refine ext_get? fun k' => ?_
  rw [get?_insert]
  split
  · next hk => rw [hk, h]
  · rfl

theorem insert_eq_modify {t : Table κ α} {k : κ} {a : α} (h : t.get? k = some a) (f : α → α) :
    t.insert k (f a) = t.modify k f := by
  refine ext_get? fun k' => ?_
  rw [get?_insert, get?_modify]
  split
  · next hk => rw [hk, h]; rfl
  · rfl

theorem modify_insert (t : Table κ α) (k : κ) (a : α) (f : α → α) :
    (t.insert k a).modify k f = t.insert k (f a) := by
  refine ext_get? fun k' => ?_
  rw [get?_modify, get?_insert, get?_insert]
  split <;> rfl

theorem modify_modify (t : Table κ α) (k : κ) (f g : α → α) :
    (t.modify k f).modify k g = t.modify k (g ∘ f) := by
  refine ext_get? fun k' => ?_
  rw [get?_modify, get?_modify, get?_modify]
  split
  · exact Option.map_map g f _
  · rfl

theorem size_insert {t : Table κ α} {k : κ} (h : t.get? k = none) (a : α) :
    (t.insert k a).size = t.size + 1 := by
  refine length_insertEntry fun e he hk => ?_
  have he : t.get? e.1 = some e.2 := get?_eq_some_iff.mpr he
  rw [hk, h] at he
  cases he

@[simp] theorem size_modify (t : Table κ α) (k : κ) (f : α → α) :
    (t.modify k f).size = t.size :=
  List.length_map _

theorem mem_keys_iff {t : Table κ α} {k : κ} : k ∈ t.keys ↔ (t.get? k).isSome := by
  rw [Option.isSome_iff_exists]
  simp [keys, get?_eq_some_iff]

theorem flatMap_values (t : Table κ α) (f : α → List β) :
    t.values.flatMap f = t.keys.flatMap fun k => (t.get? k).elim [] f := by
  simp only [values, keys, List.flatMap_def, List.map_map]
  congr 1
  refine List.map_congr_left fun e he => ?_
  simp [get?_eq_some_iff.mpr he]

theorem mem_values_iff {t : Table κ α} {a : α} : a ∈ t.values ↔ ∃ k, t.get? k = some a := by
  simp [values, get?_eq_some_iff]

theorem filter_values {t : Table κ α} {k : κ} {a : α} {p : α → Bool} (h : t.get? k = some a)
    (hp : p a) (hu : ∀ k' b, t.get? k' = some b → p b → k' = k) : t.values.filter p = [a] := by
  have hn := t.nodup_keys
  have hu : ∀ e ∈ t.entries, p e.2 → e.1 = k := fun e he => hu e.1 e.2 (get?_eq_some_iff.mpr he)
  obtain ⟨xs, ys, hes⟩ := List.append_of_mem (get?_eq_some_iff.mp h)
  rw [hes] at hu
  rw [keys, hes, List.map_append, List.map_cons, List.nodup_append] at hn
  obtain ⟨-, hys, hxs⟩ := hn
  have hx : xs.filter (p ∘ (·.2)) = [] := by
    refine List.filter_eq_nil_iff.mpr fun e he hp => ?_
    exact hxs e.1 (List.mem_map_of_mem he) k List.mem_cons_self
      (hu e (List.mem_append_left _ he) hp)
  have hy : ys.filter (p ∘ (·.2)) = [] := by
    refine List.filter_eq_nil_iff.mpr fun e he hp => (List.nodup_cons.mp hys).1 ?_
    exact List.mem_map.mpr ⟨e, he, hu e (List.mem_append_right _ (List.mem_cons_of_mem _ he)) hp⟩
  simp [values, hes, List.filter_map, hx, hy, hp]

end Table

end SharedWorld
