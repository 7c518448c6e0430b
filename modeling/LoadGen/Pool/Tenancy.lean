/-
Tenants of a pool: the slots they hold, and the waiters that ask for one below a limit of their own. A waiter asks once
when it starts; after that it asks again only if a slot was given back since, so a poll costs nothing while nothing has
changed.
-/
import LoadGen.Pool.Basic

namespace LoadGen

/-- a request for a slot below a limit -/
inductive Waiter where
  /-- not served; `woken` if a slot was given back since it last asked -/
  | pending (limit : Nat) (woken : Bool)
  | served
  deriving DecidableEq, Repr

/-- a slot was given back -/
def Waiter.wake : Waiter → Waiter
  | pending limit _ => pending limit true
  | served => served

/-- a pool with its tenants -/
structure Tenancy where
  pool : Pool
  held : List Nat
  /-- in the order in which they started -/
  waiters : List Waiter
  deriving DecidableEq, Repr

namespace Tenancy

/-- what a tenant may do -/
inductive Op where
  | acquire
  | acquireBelow (limit : Nat)
  /-- give a slot back; ignored unless it is held -/
  | release (id : Nat)
  /-- start to wait -/
  | wait (limit : Nat)
  /-- let a waiter go on -/
  | poll (waiter : Nat)
  deriving DecidableEq, Repr

def init (preAllocated maxVus : Nat) : Tenancy :=
  ⟨.init preAllocated maxVus, [], []⟩

/-- take a slot below a limit -/
def take (t : Tenancy) (limit : Nat) : Tenancy × Option Nat :=
  match t.pool.acquireBelow? limit with
  | some (id, pool) => ({ t with pool, held := id :: t.held }, some id)
  | none => (t, none)

/-- a waiter's attempt, kept at place `i` -/
def attempt (t : Tenancy) (i limit : Nat) : Tenancy × Option Nat :=
  match t.take limit with
  | (t, some id) => ({ t with waiters := t.waiters.set i .served }, some id)
  | (t, none) => ({ t with waiters := t.waiters.set i (.pending limit false) }, none)

/-- one step, with the slot that it obtained -/
def step (t : Tenancy) : Op → Tenancy × Option Nat
  | .acquire => t.take t.pool.maxVus
  | .acquireBelow limit => t.take limit
  | .release id =>
    if t.held.contains id then
      (⟨t.pool.release id, t.held.erase id, t.waiters.map Waiter.wake⟩, none)
    else (t, none)
  | .wait limit => { t with waiters := t.waiters ++ [Waiter.pending limit false] }.attempt t.waiters.length limit
  | .poll i =>
    match t.waiters[i]? with
    | some (.pending limit true) => t.attempt i limit
    | _ => (t, none)

/-- the tenancy after some steps -/
def run (t : Tenancy) (ops : List Op) : Tenancy :=
  ops.foldl (fun t op => (t.step op).1) t

end Tenancy

end LoadGen
