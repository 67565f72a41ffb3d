import Mathlib.Data.List.Nodup
import Mathlib.Tactic.Common

/-! Finite maps as association lists with pairwise distinct keys. Iteration order
is an accident of the list: every result is stated through `get`. -/
namespace Keyed

structure Table (κ υ : Type) where
  entries : List (κ × υ)
  distinct : (entries.map Prod.fst).Nodup

namespace Table
variable {κ υ : Type} [DecidableEq κ]

def empty : Table κ υ := ⟨[],List.nodup_nil⟩

def get (t : Table κ υ) (key : κ) : Option υ :=
  (t.entries.find? (fun e => e.1 = key)).map Prod.snd

theorem findMem {entries : List (κ × υ)} (distinct : (entries.map Prod.fst).Nodup) {key : κ} {value : υ} :
    (entries.find? (fun e => e.1 = key)).map Prod.snd = some value ↔ (key,value) ∈ entries := by
  induction entries with
  | nil => simp
  | cons e rest ih =>
    obtain ⟨fresh,tail⟩ := List.nodup_cons.mp distinct
    by_cases same : e.1 = key
    · subst same
      have absent : (e.1,value) ∉ rest := fun mem => fresh (List.mem_map.mpr ⟨_,mem,rfl⟩)
      have eq : (e.1,value) = e ↔ e.2 = value := by
        constructor
        · exact fun h => (congrArg Prod.snd h).symm
        · intro here
          exact here ▸ rfl
      simp [absent,eq]
    · have apart : (key,value) ≠ e := fun h => same (congrArg Prod.fst h).symm
      simpa [same,apart] using ih tail

theorem getMem (t : Table κ υ) {key : κ} {value : υ} :
    t.get key = some value ↔ (key,value) ∈ t.entries := findMem t.distinct

def erase (t : Table κ υ) (key : κ) : Table κ υ :=
  ⟨t.entries.filter (fun e => e.1 ≠ key),t.distinct.sublist (List.filter_sublist.map _)⟩

def retain (t : Table κ υ) (keep : κ → Bool) : Table κ υ :=
  ⟨t.entries.filter (fun e => keep e.1),t.distinct.sublist (List.filter_sublist.map _)⟩

def insert (t : Table κ υ) (key : κ) (value : υ) : Table κ υ :=
  ⟨(key,value) :: (t.erase key).entries,by
    refine List.nodup_cons.mpr ⟨?_,(t.erase key).distinct⟩
    intro mem
    obtain ⟨e,inside,same⟩ := List.mem_map.mp mem
    exact absurd same (by simpa using (List.mem_filter.mp inside).2)⟩

def collect (pairs : List (κ × υ)) : Table κ υ :=
  pairs.foldl (fun t e => t.insert e.1 e.2) empty

def any (t : Table κ υ) (p : κ → υ → Bool) : Bool := t.entries.any (fun e => p e.1 e.2)

def isEmpty (t : Table κ υ) : Bool := t.entries.isEmpty

@[simp] theorem getEmpty (key : κ) : (empty : Table κ υ).get key = none := rfl

theorem getErase (t : Table κ υ) (key k : κ) :
    (t.erase key).get k = if k = key then none else t.get k := by
  apply Option.ext
  intro value
  rw [getMem]
  simp only [erase,List.mem_filter,ne_eq,decide_not,Bool.not_eq_true',decide_eq_false_iff_not]
  split
  · rename_i same; simp [same]
  · rename_i apart; simp [apart,← getMem]

theorem getRetain (t : Table κ υ) (keep : κ → Bool) (k : κ) :
    (t.retain keep).get k = if keep k then t.get k else none := by
  apply Option.ext
  intro value
  rw [getMem]
  simp only [retain,List.mem_filter]
  split
  · rename_i kept; simp [kept,← getMem]
  · rename_i dropped; simp [dropped]

theorem getInsert (t : Table κ υ) (key k : κ) (value : υ) :
    (t.insert key value).get k = if k = key then some value else t.get k := by
  by_cases same : k = key
  · simp [get,insert,same]
  · have skip : (t.insert key value).get k = (t.erase key).get k := by
      simp [get,insert,Ne.symm same]
    rw [skip,getErase]
    simp [same]

theorem collectFrom (pairs : List (κ × υ)) (t : Table κ υ) (distinct : (pairs.map Prod.fst).Nodup)
    (k : κ) : (pairs.foldl (fun t e => t.insert e.1 e.2) t).get k =
      (((pairs.find? (fun e => e.1 = k)).map Prod.snd).or (t.get k)) := by
  induction pairs generalizing t with
  | nil => simp
  | cons e rest ih =>
    obtain ⟨fresh,tail⟩ := List.nodup_cons.mp distinct
    rw [List.foldl_cons,ih _ tail,getInsert]
    by_cases same : e.1 = k
    · have absent : rest.find? (fun e => e.1 = k) = none := by
        rw [List.find?_eq_none]
        intro other mem h
        exact fresh (List.mem_map.mpr ⟨other,mem,by simpa [same] using h⟩)
      simp [absent,same]
    · simp [same,Ne.symm same]

theorem getCollect {pairs : List (κ × υ)} (distinct : (pairs.map Prod.fst).Nodup) {k : κ} {value : υ} :
    (collect pairs).get k = some value ↔ (k,value) ∈ pairs := by
  rw [collect,collectFrom pairs empty distinct]
  simpa using findMem distinct

theorem anyIff (t : Table κ υ) (p : κ → υ → Bool) :
    t.any p = true ↔ ∃ key value, t.get key = some value ∧ p key value = true := by
  simp only [any,List.any_eq_true]
  constructor
  · intro entry
    obtain ⟨⟨key,value⟩,mem,holds⟩ := entry
    exact ⟨key,value,t.getMem.mpr mem,holds⟩
  · intro entry
    obtain ⟨key,value,found,holds⟩ := entry
    exact ⟨(key,value),t.getMem.mp found,holds⟩

theorem isEmptyIff (t : Table κ υ) : t.isEmpty = true ↔ ∀ key, t.get key = none := by
  simp only [isEmpty,List.isEmpty_iff,List.eq_nil_iff_forall_not_mem]
  constructor
  · intro empty key
    exact Option.eq_none_iff_forall_ne_some.mpr fun value found => empty _ (t.getMem.mp found)
  · rintro absent ⟨key,value⟩ mem
    simpa [absent key] using t.getMem.mpr mem

theorem permIff (t u : Table κ υ) : t.entries.Perm u.entries ↔ ∀ key, t.get key = u.get key := by
  have single (t : Table κ υ) : t.entries.Nodup := List.Nodup.of_map _ t.distinct
  rw [List.perm_ext_iff_of_nodup (single t) (single u)]
  constructor
  · intro same key
    apply Option.ext
    intro value
    rw [t.getMem,u.getMem,same]
  · rintro same ⟨key,value⟩
    rw [← t.getMem,← u.getMem,same]

end Table
end Keyed
