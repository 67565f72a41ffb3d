import ProxpulseJudge.Lib.Steps
import ProxpulseJudge.Lib.Table
import Mathlib.Order.Defs.PartialOrder

/-! One machine per key behind a shared store that may drop idle entries. When an
idle machine cannot be told from a fresh one, each key sees a machine of its own
that is never dropped, whatever the other keys do. -/
namespace Shared
open Keyed (Table)
open Steps (Run)

structure Machine (τ σ ο : Type) where
  fresh : τ → σ
  step : σ → τ → ο × σ

inductive Label (κ τ ο : Type) where
  | call (key : κ) (time : τ) (answer : ο)
  | drop (key : κ) (time : τ)

structure Store (κ τ σ : Type) where
  entries : Table κ σ
  now : τ

variable {κ τ σ ο : Type} [DecidableEq κ] [Preorder τ]

def Machine.serve (m : Machine τ σ ο) (entry : Option σ) (t : τ) : ο × σ := m.step (entry.getD (m.fresh t)) t

inductive Step (m : Machine τ σ ο) (idle : σ → τ → Prop) :
    Store κ τ σ → Label κ τ ο → Store κ τ σ → Prop where
  | call {s : Store κ τ σ} (key : κ) {t : τ} (later : s.now ≤ t) :
      Step m idle s (.call key t (m.serve (s.entries.get key) t).1)
        ⟨s.entries.insert key (m.serve (s.entries.get key) t).2,t⟩
  | drop {s : Store κ τ σ} {key : κ} {t : τ} (later : s.now ≤ t)
      (unused : ∀ e, s.entries.get key = some e → idle e t) :
      Step m idle s (.drop key t) ⟨s.entries.erase key,t⟩

def calls (key : κ) : List (Label κ τ ο) → List (τ × ο)
  | [] => []
  | .call k t answer :: ls => if k = key then (t,answer) :: calls key ls else calls key ls
  | .drop _ _ :: ls => calls key ls

def solo (m : Machine τ σ ο) : Option σ → List τ → List (τ × ο)
  | _,[] => []
  | entry,t :: times => (t,(m.serve entry t).1) :: solo m (some (m.serve entry t).2) times

def Stale (m : Machine τ σ ο) (e : σ) (now : τ) : Prop := ∀ t, now ≤ t → m.step e t = m.step (m.fresh t) t

inductive Tracks (m : Machine τ σ ο) (now : τ) : Option σ → Option σ → Prop where
  | same (e) : Tracks m now e e
  | dropped {e} (stale : Stale m e now) : Tracks m now none (some e)

variable {m : Machine τ σ ο}

theorem tracksLater {now t : τ} {entry alone : Option σ} (tracks : Tracks m now entry alone) (le : now ≤ t) :
    Tracks m t entry alone := by
  cases tracks with
  | same => exact .same _
  | dropped stale => exact .dropped fun u hu => stale u (le_trans le hu)

theorem tracksServe {now t : τ} {entry alone : Option σ} (tracks : Tracks m now entry alone) (le : now ≤ t) :
    m.serve entry t = m.serve alone t := by
  cases tracks with
  | same => rfl
  | dropped stale => exact (stale t le).symm

/- What makes dropping invisible: an invariant of the stored machines under which
an idle one is as good as fresh. -/
structure Evictable (m : Machine τ σ ο) (idle : σ → τ → Prop) (Good : σ → Prop) : Prop where
  fresh : ∀ t, Good (m.fresh t)
  keeps : ∀ e t, Good e → Good (m.step e t).2
  stale : ∀ e t, Good e → idle e t → Stale m e t

variable {idle : σ → τ → Prop} {Good : σ → Prop} {s s' : Store κ τ σ} {l : Label κ τ ο}

def AllGood (Good : σ → Prop) (s : Store κ τ σ) : Prop := ∀ k e, s.entries.get k = some e → Good e

theorem stepGood (evictable : Evictable m idle Good) (step : Step m idle s l s') (good : AllGood Good s) :
    AllGood Good s' := by
  intro k e found
  cases step with
  | call key later =>
    rw [Table.getInsert] at found
    split at found
    · cases found
      apply evictable.keeps
      cases entry : s.entries.get key with
      | none => exact evictable.fresh _
      | some old => exact good key old entry
    · exact good k e found
  | drop later unused =>
    rw [Table.getErase] at found
    split at found
    · contradiction
    · exact good k e found

/- One step, seen from one key: either it is a call of that key, which both sides
answer alike, or the key's own machine does not move. -/
theorem stepTracks (evictable : Evictable m idle Good) (step : Step m idle s l s') (good : AllGood Good s)
    {key : κ} {alone : Option σ} (tracks : Tracks m s.now (s.entries.get key) alone) :
    (∃ t, s.now ≤ t ∧ l = .call key t (m.serve alone t).1 ∧
      Tracks m s'.now (s'.entries.get key) (some (m.serve alone t).2)) ∨
    (calls key [l] = [] ∧ Tracks m s'.now (s'.entries.get key) alone) := by
  cases step with
  | @call k t later =>
    by_cases same : k = key
    · subst same
      refine .inl ⟨t,later,by rw [tracksServe tracks later],?_⟩
      rw [← tracksServe tracks later,Table.getInsert,if_pos rfl]
      exact .same _
    · refine .inr ⟨by simp [calls,same],?_⟩
      rw [Table.getInsert,if_neg (Ne.symm same)]
      exact tracksLater tracks later
  | @drop k t later unused =>
    refine .inr ⟨rfl,?_⟩
    rw [Table.getErase]
    split
    · rename_i same
      subst same
      cases found : s.entries.get key with
      | none => rw [found] at tracks; exact tracksLater tracks later
      | some e =>
        rw [found] at tracks
        cases tracks
        exact .dropped (evictable.stale e t (good key e found) (unused e found))
    · exact tracksLater tracks later

omit [Preorder τ] in
theorem callsCons (key : κ) (l : Label κ τ ο) (ls : List (Label κ τ ο)) :
    calls key (l :: ls) = calls key [l] ++ calls key ls := by
  cases l with
  | call k t answer => by_cases same : k = key <;> simp [calls,same]
  | drop k t => rfl

theorem runSolo (evictable : Evictable m idle Good) {ls : List (Label κ τ ο)}
    (run : Run (Step m idle) s ls s') (good : AllGood Good s) {key : κ} {alone : Option σ}
    (tracks : Tracks m s.now (s.entries.get key) alone) :
    calls key ls = solo m alone ((calls key ls).map Prod.fst) := by
  induction run generalizing alone with
  | nil => rfl
  | cons first rest ih =>
    rw [callsCons]
    rcases stepTracks evictable first good tracks with ⟨t,_,rfl,next⟩ | ⟨other,next⟩
    · have tail := ih (stepGood evictable first good) next
      simp only [calls,if_true,List.singleton_append,List.map_cons,solo]
      rw [← tail]
    · rw [other,List.nil_append]
      exact ih (stepGood evictable first good) next

theorem isolated (evictable : Evictable m idle Good) {ls : List (Label κ τ ο)} {start : τ}
    (run : Run (Step m idle) ⟨Table.empty,start⟩ ls s') (key : κ) :
    calls key ls = solo m none ((calls key ls).map Prod.fst) :=
  runSolo evictable run (fun _ _ found => by simp at found) (.same none)

theorem callTimes {ls : List (Label κ τ ο)} (run : Run (Step m idle) s ls s') (key : κ) :
    (∀ t ∈ (calls key ls).map Prod.fst, s.now ≤ t) ∧ ((calls key ls).map Prod.fst).Pairwise (· ≤ ·) := by
  induction run with
  | nil => simp [calls]
  | @cons s l middle ls _ first rest ih =>
    obtain ⟨after,sorted⟩ := ih
    cases first with
    | @call k t later =>
      have behind : ∀ u ∈ (calls key ls).map Prod.fst, s.now ≤ u := fun u mem => le_trans later (after u mem)
      simp only [calls]
      split
      · exact ⟨by simpa [later] using behind,List.pairwise_cons.mpr ⟨after,sorted⟩⟩
      · exact ⟨behind,sorted⟩
    | drop later unused => exact ⟨fun u mem => le_trans later (after u mem),sorted⟩

end Shared
