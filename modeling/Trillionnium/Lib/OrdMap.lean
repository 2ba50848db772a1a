import Mathlib.Data.List.Sort
import Mathlib.Data.Prod.Lex
import Mathlib.Algebra.BigOperators.Group.List.Basic
import Mathlib.Algebra.Order.Ring.Nat

/-!
# Ordered finite maps

Key-sorted association lists. `OrdMap` carries the sortedness of its entries, so two maps with
the same lookups are equal (`OrdMap.ext_get`) and iteration order is a function of the contents.
The raw operations of `Assoc` are also used on lists that carry no invariant: the lookup laws of
`insert` hold for every list.
-/

namespace Lib

/-! ## Raw association lists -/

namespace Assoc

variable {K V : Type} [LinearOrder K]

def find (k : K) : List (K × V) → Option V
  | [] => none
  | (k', v) :: rest => if k' = k then some v else find k rest

/-- Insertion in key order, replacing the value of an entry at the same key. -/
def insert (k : K) (v : V) : List (K × V) → List (K × V)
  | [] => [(k, v)]
  | (k', v') :: rest =>
    if k < k' then (k, v) :: (k', v') :: rest
    else if k' = k then (k, v) :: rest
    else (k', v') :: insert k v rest

def erase (k : K) (l : List (K × V)) : List (K × V) := l.filter (fun e => e.1 ≠ k)

/-- Entries in strictly increasing key order. -/
def Sorted (l : List (K × V)) : Prop := l.Pairwise (fun a b => a.1 < b.1)

theorem find_insert (k j : K) (v : V) (l : List (K × V)) :
    find j (insert k v l) = if k = j then some v else find j l := by
  induction l with
  | nil => simp [insert, find]
  | cons e l ih =>
    obtain ⟨k', v'⟩ := e
    rw [insert]
    split
    · simp [find]
    · split
      · rename_i h
        subst h
        by_cases h : k' = j <;> simp [find, h]
      · by_cases h : k' = j
        · subst h; simp [find, Ne.symm ‹¬k' = k›]
        · simp [find, h, ih]

variable {k : K} {v : V} {l : List (K × V)}

theorem mem_insert (h : e ∈ insert k v l) : e = (k, v) ∨ e ∈ l := by
  induction l with
  | nil => simpa [insert] using h
  | cons e' l ih =>
    obtain ⟨k', v'⟩ := e'
    rw [insert] at h
    split at h
    · simpa using h
    · split at h
      · rcases List.mem_cons.mp h with h | h
        · exact .inl h
        · exact .inr (List.mem_cons_of_mem _ h)
      · rcases List.mem_cons.mp h with rfl | h
        · exact .inr List.mem_cons_self
        · exact (ih h).imp_right (List.mem_cons_of_mem _)

theorem Sorted.insert (h : Sorted l) : Sorted (insert k v l) := by
  induction l with
  | nil => simp [Assoc.insert, Sorted]
  | cons e l ih =>
    obtain ⟨k', v'⟩ := e
    obtain ⟨hhead, htail⟩ := List.pairwise_cons.mp h
    rw [Assoc.insert]
    split
    · rename_i hlt
      refine .cons (fun a ha => ?_) h
      rcases List.mem_cons.mp ha with rfl | ha
      · exact hlt
      · exact hlt.trans (hhead a ha)
    · split
      · subst_vars; exact .cons hhead htail
      · rename_i h1 h2
        refine .cons (fun a ha => ?_) (ih htail)
        rcases mem_insert ha with rfl | ha
        · exact lt_of_le_of_ne (not_lt.mp h1) h2
        · exact hhead a ha

theorem find_eq_some_of_mem (hs : Sorted l) (h : (k, v) ∈ l) : find k l = some v := by
  induction l with
  | nil => cases h
  | cons e l ih =>
    obtain ⟨k', v'⟩ := e
    obtain ⟨hhead, htail⟩ := List.pairwise_cons.mp hs
    rcases List.mem_cons.mp h with h | h
    · cases h; simp [find]
    · have hne : k' ≠ k := (hhead _ h).ne
      simp [find, hne, ih htail h]

theorem mem_of_find_eq_some (h : find k l = some v) : (k, v) ∈ l := by
  induction l with
  | nil => cases h
  | cons e l ih =>
    obtain ⟨k', v'⟩ := e
    rw [find] at h
    split at h
    · cases h; subst_vars; exact List.mem_cons_self
    · exact List.mem_cons_of_mem _ (ih h)

theorem find_eq_none : find k l = none ↔ ∀ v, (k, v) ∉ l := by
  induction l with
  | nil => simp [find]
  | cons e l ih =>
    obtain ⟨k', v'⟩ := e
    by_cases h : k' = k
    · subst h
      simp only [find, if_true, reduceCtorEq, false_iff, not_forall, not_not]
      exact ⟨v', List.mem_cons_self⟩
    · simp [find, h, ih, Ne.symm h]

theorem find_filter (hs : Sorted l) :
    find k (l.filter p) = (find k l).filter (fun v => p (k, v)) := by
  cases h : find k l with
  | none =>
    rw [Option.filter_none, find_eq_none]
    exact fun v hv => find_eq_none.mp h v (List.mem_filter.mp hv).1
  | some v =>
    have hm := mem_of_find_eq_some h
    by_cases hp : p (k, v) = true
    · rw [show (some v).filter (fun v => p (k, v)) = some v by simp [hp]]
      exact find_eq_some_of_mem (hs.filter _) (List.mem_filter.mpr ⟨hm, hp⟩)
    · rw [show (some v).filter (fun v => p (k, v)) = none by simp [hp], find_eq_none]
      intro w hw
      obtain ⟨hw, hpw⟩ := List.mem_filter.mp hw
      have := find_eq_some_of_mem hs hw
      rw [h] at this
      cases this
      exact hp hpw

/-- Sorted lists with the same lookups are equal. -/
theorem Sorted.ext (hs : Sorted l) (hs' : Sorted l') (h : ∀ k, find k l = find k l') : l = l' := by
  have mem : ∀ {l l' : List (K × V)}, Sorted l → (∀ k, find k l = find k l') →
      ∀ e ∈ l, e ∈ l' := fun hs h e he =>
    mem_of_find_eq_some ((h e.1).symm.trans (find_eq_some_of_mem hs he))
  have nodup : ∀ {l : List (K × V)}, Sorted l → l.Nodup := by
    intro l hs
    refine List.Pairwise.imp ?_ hs
    rintro a _ hab rfl
    exact lt_irrefl _ hab
  have perm : l.Perm l' := (List.perm_ext_iff_of_nodup (nodup hs) (nodup hs')).mpr
    fun e => ⟨mem hs h e, mem hs' (fun k => (h k).symm) e⟩
  exact perm.eq_of_pairwise (fun a b _ _ hab hba => absurd hab (lt_asymm hba)) hs hs'

def sum (f : K → V → Nat) (l : List (K × V)) : Nat := (l.map fun e => f e.1 e.2).sum

theorem sum_insert (f : K → V → Nat) (k : K) (v : V) (hs : Sorted l) :
    sum f (insert k v l) + (find k l).elim 0 (f k) = sum f l + f k v := by
  induction l with
  | nil => simp [insert, sum, find]
  | cons e l ih =>
    obtain ⟨k', v'⟩ := e
    obtain ⟨hhead, htail⟩ := List.pairwise_cons.mp hs
    rw [insert]
    split
    · rename_i hlt
      have : find k ((k', v') :: l) = none := by
        rw [find_eq_none]
        intro w hw
        rcases List.mem_cons.mp hw with h | h
        · cases h; exact lt_irrefl _ hlt
        · exact lt_asymm hlt (hhead _ h)
      simp only [this, Option.elim_none, Nat.add_zero]
      simp [sum, Nat.add_comm]
    · split
      · subst_vars
        simp [sum, find]; omega
      · rename_i h2
        have := ih htail
        simp only [sum, List.map_cons, List.sum_cons, find, h2, if_false] at this ⊢
        omega

theorem sum_erase (f : K → V → Nat) (k : K) (hs : Sorted l) :
    sum f (erase k l) + (find k l).elim 0 (f k) = sum f l := by
  induction l with
  | nil => simp [erase, sum, find]
  | cons e l ih =>
    obtain ⟨k', v'⟩ := e
    obtain ⟨hhead, htail⟩ := List.pairwise_cons.mp hs
    have := ih htail
    by_cases h : k' = k
    · subst h
      have hnone : find k' l = none := by
        rw [find_eq_none]
        exact fun w hw => lt_irrefl k' (hhead (k', w) hw)
      rw [hnone] at this
      simp only [erase, ne_eq, decide_not, List.filter_cons, sum, find, if_true] at this ⊢
      simp at this ⊢
      omega
    · simp only [erase, ne_eq, decide_not, List.filter_cons, sum, find, h, if_false] at this ⊢
      simp at this ⊢
      omega

end Assoc

/-! ## Maps -/

/-- A finite map as its key-sorted list of entries. -/
structure OrdMap (K V : Type) [LinearOrder K] where
  entries : List (K × V)
  sorted : Assoc.Sorted entries

namespace OrdMap

variable {K V : Type} [LinearOrder K] {m m' : OrdMap K V} {k j : K} {v : V}

theorem ext_entries (h : m.entries = m'.entries) : m = m' := by
  cases m; cases m'; cases h; rfl

instance [DecidableEq V] : DecidableEq (OrdMap K V) := fun m m' =>
  decidable_of_iff (m.entries = m'.entries) ⟨ext_entries, fun h => h ▸ rfl⟩

def empty : OrdMap K V := ⟨[], .nil⟩

instance : EmptyCollection (OrdMap K V) := ⟨empty⟩
instance : Inhabited (OrdMap K V) := ⟨empty⟩

def get (m : OrdMap K V) (k : K) : Option V := Assoc.find k m.entries

def insert (m : OrdMap K V) (k : K) (v : V) : OrdMap K V :=
  ⟨Assoc.insert k v m.entries, m.sorted.insert⟩

def erase (m : OrdMap K V) (k : K) : OrdMap K V :=
  ⟨Assoc.erase k m.entries, m.sorted.filter _⟩

def filter (m : OrdMap K V) (p : K → V → Bool) : OrdMap K V :=
  ⟨m.entries.filter (fun e => p e.1 e.2), m.sorted.filter _⟩

/-- Keep the value already recorded at `k`, else record `v`. -/
def insertIfNew (m : OrdMap K V) (k : K) (v : V) : OrdMap K V :=
  match m.get k with
  | some _ => m
  | none => m.insert k v

/-- Write every entry of `w` over `m`. -/
def extend (m w : OrdMap K V) : OrdMap K V := w.entries.foldl (fun m e => m.insert e.1 e.2) m

def keys (m : OrdMap K V) : List K := m.entries.map Prod.fst
def values (m : OrdMap K V) : List V := m.entries.map Prod.snd
def size (m : OrdMap K V) : Nat := m.entries.length

/-- The map with the entries of `l`, a later entry replacing an earlier one. -/
def ofList (l : List (K × V)) : OrdMap K V := l.foldl (fun m e => m.insert e.1 e.2) empty

def sum (m : OrdMap K V) (f : K → V → Nat) : Nat := Assoc.sum f m.entries

@[simp] theorem get_empty : (empty : OrdMap K V).get k = none := rfl

@[simp] theorem get_emptyCollection : (∅ : OrdMap K V).get k = none := rfl

theorem get_insert : (m.insert k v).get j = if k = j then some v else m.get j :=
  Assoc.find_insert ..

@[simp] theorem get_insert_self : (m.insert k v).get k = some v := by simp [get_insert]

theorem get_insert_ne (h : k ≠ j) : (m.insert k v).get j = m.get j := by simp [get_insert, h]

theorem get_insert_ne_none (h : m.get j ≠ none) : (m.insert k v).get j ≠ none := by
  rw [get_insert]
  split
  · exact Option.some_ne_none v
  · exact h

theorem mem_entries : (k, v) ∈ m.entries ↔ m.get k = some v :=
  ⟨Assoc.find_eq_some_of_mem m.sorted, Assoc.mem_of_find_eq_some⟩

theorem mem_keys : k ∈ m.keys ↔ m.get k ≠ none := by
  constructor
  · intro h
    obtain ⟨e, he, rfl⟩ := List.mem_map.mp h
    rw [mem_entries.mp (show (e.1, e.2) ∈ m.entries from he)]
    simp
  · intro h
    obtain ⟨v, hv⟩ := Option.ne_none_iff_exists'.mp h
    exact List.mem_map.mpr ⟨(k, v), mem_entries.mpr hv, rfl⟩

theorem mem_values : v ∈ m.values ↔ ∃ k, m.get k = some v := by
  simp only [values, List.mem_map, Prod.exists, exists_eq_right, mem_entries]

theorem nodup_keys : m.keys.Nodup :=
  List.pairwise_map.mpr (m.sorted.imp fun h => h.ne)

theorem get_filter : (m.filter p).get k = (m.get k).filter (p k) :=
  Assoc.find_filter m.sorted

theorem get_erase : (m.erase k).get j = if k = j then none else m.get j := by
  unfold erase get Assoc.erase
  rw [Assoc.find_filter m.sorted]
  by_cases h : k = j
  · subst h; cases Assoc.find k m.entries <;> simp
  · cases Assoc.find j m.entries <;> simp [h, Ne.symm h]

@[simp] theorem get_erase_self : (m.erase k).get k = none := by simp [get_erase]

/-- Maps with the same lookups are equal. -/
theorem ext_get (h : ∀ k, m.get k = m'.get k) : m = m' :=
  ext_entries (m.sorted.ext m'.sorted h)

theorem get_insertIfNew :
    (m.insertIfNew k v).get j = if k = j then some ((m.get k).getD v) else m.get j := by
  unfold insertIfNew
  cases h : m.get k with
  | none => simp [get_insert]
  | some w =>
    by_cases hj : k = j
    · subst hj; simp [h]
    · simp [hj]

theorem get_foldl_insert (hs : Assoc.Sorted l) :
    (l.foldl (fun m e => m.insert e.1 e.2) m).get k = (Assoc.find k l).or (m.get k) := by
  induction l generalizing m with
  | nil => rfl
  | cons e l ih =>
    obtain ⟨k', v'⟩ := e
    obtain ⟨hhead, htail⟩ := List.pairwise_cons.mp hs
    simp only [List.foldl_cons, ih htail, get_insert, Assoc.find]
    by_cases h : k' = k
    · subst h
      have : Assoc.find k' l = none := by
        rw [Assoc.find_eq_none]
        exact fun w hw => lt_irrefl k' (hhead (k', w) hw)
      simp [this]
    · simp [h]

theorem get_extend : (m.extend w).get k = (w.get k).or (m.get k) :=
  get_foldl_insert w.sorted

/-- The map of a function on a list of keys. -/
theorem get_ofList_map {f : K → V} {l : List K} :
    (ofList (l.map fun k => (k, f k))).get k = if k ∈ l then some (f k) else none := by
  have fold : ∀ m : OrdMap K V, ((l.map fun k => (k, f k)).foldl (fun m e => m.insert e.1 e.2)
      m).get k = if k ∈ l then some (f k) else m.get k := by
    induction l with
    | nil => simp
    | cons j l ih =>
      intro m
      rw [List.map_cons, List.foldl_cons, ih, get_insert]
      by_cases hj : j = k
      · subst hj; simp
      · simp [hj, Ne.symm hj]
  exact fold empty

theorem sum_insert (f : K → V → Nat) :
    (m.insert k v).sum f + (m.get k).elim 0 (f k) = m.sum f + f k v :=
  Assoc.sum_insert f k v m.sorted

theorem sum_erase (f : K → V → Nat) : (m.erase k).sum f + (m.get k).elim 0 (f k) = m.sum f :=
  Assoc.sum_erase f k m.sorted

/-- Inserting at a new key adds its value to the sum. -/
theorem sum_insert_new (f : K → V → Nat) (h : m.get k = none) :
    (m.insert k v).sum f = m.sum f + f k v := by
  simpa [h] using m.sum_insert (k := k) (v := v) f

/-- Writing the entries of `w` replaces what `m` held at their keys. -/
theorem sum_extend (f : K → V → Nat) (m w : OrdMap K V) :
    (m.extend w).sum f + w.sum (fun k _ => (m.get k).elim 0 (f k)) = m.sum f + w.sum f := by
  obtain ⟨l, hl⟩ := w
  simp only [extend, sum, Assoc.sum]
  induction l generalizing m with
  | nil => simp
  | cons e l ih =>
    obtain ⟨k, v⟩ := e
    obtain ⟨hhead, htail⟩ := List.pairwise_cons.mp hl
    -- the later keys are not `k`, so the first write does not change what they replace
    have hlater : (l.map fun e => ((m.insert k v).get e.1).elim 0 (f e.1)) =
        l.map fun e => (m.get e.1).elim 0 (f e.1) :=
      List.map_congr_left fun e he => by rw [get_insert_ne (hhead e he).ne]
    have hrest := ih (m.insert k v) htail
    have hfirst := m.sum_insert (k := k) (v := v) f
    simp only [sum, Assoc.sum] at hfirst
    rw [hlater] at hrest
    simp only [List.foldl_cons, List.map_cons, List.sum_cons]
    omega

/-- Every entry is the new one or an old one at another key. -/
theorem get_insert_cases (h : (m.insert k v).get j = some w) :
    (j = k ∧ w = v) ∨ (j ≠ k ∧ m.get j = some w) := by
  rw [get_insert] at h
  split at h
  · next hk => exact .inl ⟨hk.symm, (Option.some.inj h).symm⟩
  · next hk => exact .inr ⟨fun hj => hk hj.symm, h⟩

/-- The keys of `m'` whose values are not those of `m`, in order. -/
def changed [DecidableEq V] (m m' : OrdMap K V) : List K :=
  m'.keys.filter fun k => m.get k ≠ m'.get k

section
variable [DecidableEq V]

theorem mem_changed : k ∈ m.changed m' ↔ m'.get k ≠ none ∧ m.get k ≠ m'.get k := by
  simp [changed, mem_keys]

theorem changed_eq (hl : l.Pairwise (· < ·))
    (h : ∀ k, k ∈ l ↔ m'.get k ≠ none ∧ m.get k ≠ m'.get k) : m.changed m' = l := by
  have hkeys : m'.keys.Pairwise (· < ·) := List.pairwise_map.mpr m'.sorted
  exact (hkeys.filter _).eq_of_mem_iff hl fun k => mem_changed.trans (h k).symm

@[simp] theorem changed_self : m.changed m = [] := changed_eq .nil fun k => by simp

theorem changed_insert (h : m.get k ≠ some v) : m.changed (m.insert k v) = [k] := by
  refine changed_eq (List.pairwise_singleton _ _) fun j => ?_
  rw [List.mem_singleton, get_insert]
  by_cases hk : k = j
  · subst hk
    simp [h]
  · simp [hk, Ne.symm hk]

end

/-- No key is lost, and the values change only as `R` allows. -/
def Extends (R : V → V → Prop) (m m' : OrdMap K V) : Prop :=
  ∀ k v, m.get k = some v → ∃ v', m'.get k = some v' ∧ R v v'

namespace Extends
variable {R : V → V → Prop}

theorem refl (hR : ∀ v, R v v) : Extends R m m := fun _ v h => ⟨v, h, hR v⟩

theorem insert_new (hR : ∀ v, R v v) (h : m.get k = none) : Extends R m (m.insert k v) := by
  intro j w hw
  have hne : k ≠ j := fun hk => by simp [← hk, h] at hw
  exact ⟨w, by rw [get_insert_ne hne, hw], hR w⟩

theorem insert_over (hR : ∀ v, R v v) (h : m.get k = some v) (hw : R v w) :
    Extends R m (m.insert k w) := by
  intro j u hu
  by_cases hk : k = j
  · subst hk
    obtain rfl := Option.some.inj (h.symm.trans hu)
    exact ⟨w, get_insert_self, hw⟩
  · exact ⟨u, by rw [get_insert_ne hk, hu], hR u⟩

theorem trans (hR : ∀ u v w, R u v → R v w → R u w) (h : Extends R m m')
    (h' : Extends R m' m'') : Extends R m m'' := by
  intro k v hv
  obtain ⟨v', hv', hR'⟩ := h k v hv
  obtain ⟨v'', hv'', hR''⟩ := h' k v' hv'
  exact ⟨v'', hv'', hR v v' v'' hR' hR''⟩

end Extends

end OrdMap

end Lib
