import Mathlib.Data.List.Perm.Basic
import Mathlib.Data.List.Range
import Mathlib.Tactic.Common

/-! A counting semaphore whose permits are numbered as they are handed out, and
the account it keeps with their owners: every permit ever handed out is either
held once or was returned once. -/
namespace Permit

structure Pool where
  available : Nat
  issued : Nat
  returned : List Nat
  deriving DecidableEq, Repr

def Pool.new (capacity : Nat) : Pool := ⟨capacity,0,[]⟩

def Pool.acquire (pool : Pool) : Option (Nat × Pool) :=
  if pool.available = 0 then none
  else some (pool.issued,{ pool with available := pool.available-1, issued := pool.issued+1 })

def Pool.release (pool : Pool) (permit : Nat) : Pool :=
  { pool with available := pool.available+1, returned := permit :: pool.returned }

structure Balanced (capacity : Nat) (pool : Pool) (held : List Nat) : Prop where
  account : (held ++ pool.returned).Perm (List.range pool.issued)
  total : pool.available+held.length = capacity

variable {capacity permit : Nat} {pool next : Pool} {held held' : List Nat}

theorem acquireSome (free : 0 < pool.available) :
    ∃ permit next, pool.acquire = some (permit,next) ∧ next.available+1 = pool.available := by
  refine ⟨pool.issued,_,if_neg (by omega),?_⟩
  dsimp only
  omega

theorem acquireReturned (got : pool.acquire = some (permit,next)) : next.returned = pool.returned := by
  unfold Pool.acquire at got
  split at got <;> try contradiction
  cases Option.some.inj got
  rfl

theorem balancedNew (capacity : Nat) : Balanced capacity (Pool.new capacity) [] := ⟨.refl _,rfl⟩

theorem balancedPerm (balanced : Balanced capacity pool held) (same : held'.Perm held) :
    Balanced capacity pool held' :=
  ⟨(same.append_right _).trans balanced.account,by rw [same.length_eq]; exact balanced.total⟩

theorem balancedAcquire (balanced : Balanced capacity pool held)
    (got : pool.acquire = some (permit,next)) : Balanced capacity next (permit :: held) := by
  unfold Pool.acquire at got
  split at got <;> try contradiction
  cases Option.some.inj got
  constructor
  · rw [List.range_succ]
    exact ((balanced.account.cons pool.issued).trans (List.perm_append_singleton _ _).symm)
  · have := balanced.total
    simp only [List.length_cons]
    omega

theorem balancedRelease (balanced : Balanced capacity pool (permit :: held)) :
    Balanced capacity (pool.release permit) held := by
  constructor
  · exact List.perm_middle.trans balanced.account
  · have := balanced.total
    simp only [Pool.release,List.length_cons] at this ⊢
    omega

theorem balancedReleaseAll {permits : List Nat} (balanced : Balanced capacity pool (permits ++ held)) :
    Balanced capacity (permits.foldl Pool.release pool) held := by
  induction permits generalizing pool with
  | nil => exact balanced
  | cons p ps ih => exact ih (balancedRelease balanced)

end Permit
