import Bongo.Histories

/-!
Clients that read a store, issue a command for what they read, and see it land
later. Any number of commands can be under way at once and they land in any
order, so a command is applied to a store that need not be the one it was
issued for.
-/

namespace Bongo.Clients

open Histories

variable {Store Call Command : Type}

structure System (Store Call Command : Type) where
  store : Store
  inflight : List (Call × Command)

inductive Event (Call : Type) where
  | begin (call : Call)
  | land (position : Nat)

/-- `issue` reads the store of the moment and may refuse; `apply` is the
replicated step. -/
def act (issue : Store → Call → Option Command) (apply : Store → Command → Store)
    (sys : System Store Call Command) : Event Call → System Store Call Command
  | .begin call =>
    match issue sys.store call with
    | some cmd => ⟨sys.store, sys.inflight ++ [(call, cmd)]⟩
    | none => sys
  | .land position =>
    match sys.inflight[position]? with
    | some (_, cmd) => ⟨apply sys.store cmd, sys.inflight.eraseIdx position⟩
    | none => sys

/-- `cond` holds of the store and the command at the moment it lands. -/
def AtLanding (cond : Store → Call → Command → Prop) (sys : System Store Call Command) :
    Event Call → Prop
  | .begin _ => True
  | .land position =>
    ∀ call cmd, sys.inflight[position]? = some (call, cmd) → cond sys.store call cmd

theorem atLanding_of_found {cond : Store → Call → Command → Prop}
    {sys : System Store Call Command} {position : Nat} (call : Call) (cmd : Command)
    (found : sys.inflight[position]? = some (call, cmd)) (held : cond sys.store call cmd) :
    AtLanding cond sys (.land position) := by
  intro other pending same
  cases found.symm.trans same
  exact held

/-- The store keeps `inv` and every command under way is one that was issued. -/
structure Kept (inv : Store → Prop) (issued : Call → Command → Prop)
    (sys : System Store Call Command) : Prop where
  store : inv sys.store
  inflight : ∀ call cmd, (call, cmd) ∈ sys.inflight → issued call cmd

section Rules

variable (issue : Store → Call → Option Command) (apply : Store → Command → Store)
  {inv : Store → Prop} {issued : Call → Command → Prop}
  {cond goal : Store → Call → Command → Prop}

section

variable (issues : ∀ store call cmd, inv store → issue store call = some cmd → issued call cmd)
  (lands : ∀ store call cmd, inv store → issued call cmd → cond store call cmd →
    inv (apply store cmd))
include issues lands

theorem act_kept (sys : System Store Call Command) (event : Event Call) (kept : Kept inv issued sys)
    (held : AtLanding cond sys event) : Kept inv issued (act issue apply sys event) := by
  cases event with
  | begin call =>
    rw [act]
    cases read : issue sys.store call with
    | none => exact kept
    | some cmd =>
      refine ⟨kept.store, fun other pending member => ?_⟩
      rcases List.mem_append.mp member with before | new
      · exact kept.inflight other pending before
      · cases List.mem_singleton.mp new
        exact issues sys.store call cmd kept.store read
  | land position =>
    rw [act]
    cases found : sys.inflight[position]? with
    | none => exact kept
    | some entry =>
      obtain ⟨call, cmd⟩ := entry
      have issuedCmd := kept.inflight call cmd (List.mem_of_getElem? found)
      refine ⟨lands sys.store call cmd kept.store issuedCmd (held call cmd found), ?_⟩
      intro other pending member
      exact kept.inflight other pending (List.mem_of_mem_eraseIdx member)

/-- What one landing gives, every landing of the run gives. -/
theorem along_landings (gives : ∀ store call cmd, inv store → issued call cmd →
      cond store call cmd → goal store call cmd)
    {sys : System Store Call Command} {events : List (Event Call)} (kept : Kept inv issued sys)
    (held : Along (act issue apply) (AtLanding cond) sys events) :
    Along (act issue apply) (AtLanding goal) sys events := by
  apply along_strengthen (act_kept issue apply issues lands) _ kept held
  intro state event stateKept now
  cases event with
  | begin call => trivial
  | land position =>
    intro call cmd found
    exact gives state.store call cmd stateKept.store
      (stateKept.inflight call cmd (List.mem_of_getElem? found)) (now call cmd found)

end

variable {issue} {apply} in
/-- Two conditions on the landings of a run are one. -/
theorem along_landings_and {other : Store → Call → Command → Prop}
    {sys : System Store Call Command} {events : List (Event Call)}
    (first : Along (act issue apply) (AtLanding cond) sys events)
    (second : Along (act issue apply) (AtLanding other) sys events) :
    Along (act issue apply)
      (AtLanding fun store call cmd => cond store call cmd ∧ other store call cmd) sys events := by
  refine along_mono ?_ (along_and first second)
  intro state event both
  cases event with
  | begin call => trivial
  | land position =>
    exact fun call cmd found => ⟨both.1 call cmd found, both.2 call cmd found⟩

end Rules

end Bongo.Clients
