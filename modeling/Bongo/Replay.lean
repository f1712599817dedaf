import Bongo.Histories

/-!
Replaying a log behind a watermark. The work of an entry is done first and the
watermark moved second, in two writes; a crash can come before both or between
them, and every restart replays the whole log and skips what the watermark
covers. So at most one entry is ever done twice in a row.
-/

namespace Bongo.Replay

open Histories

universe u v
variable {State : Type u} {Entry : Type v}

section Definitions

variable (mark : State → Nat) (index : Entry → Nat) (work note : State → Entry → State)

def step (state : State) (entry : Entry) : State :=
  if index entry ≤ mark state then state else note (work state entry) entry

/-- A step that is cut off before it moves the watermark. -/
def half (state : State) (entry : Entry) : State :=
  if index entry ≤ mark state then state else work state entry

def once : State → List Entry → State := run fun state entry => note (work state entry) entry

end Definitions

/-- A crash at the entry at `position`, before its work or right after it. -/
structure Crash where
  position : Nat
  worked : Bool
  deriving DecidableEq

def lifetime (step half : State → Entry → State) (log : List Entry) (state : State)
    (crash : Crash) : State :=
  let reached := run step state (log.take crash.position)
  if crash.worked then (log[crash.position]?).elim reached (half reached) else reached

def recover (step half : State → Entry → State) (log : List Entry) (state : State)
    (crashes : List Crash) : State :=
  run step (crashes.foldl (lifetime step half log) state) log

section Skipping

variable {mark : State → Nat} {index : Entry → Nat} {work note : State → Entry → State}
  (noted : ∀ state entry, mark (note state entry) = index entry)

theorem run_skips (state : State) (log : List Entry)
    (covered : ∀ entry ∈ log, index entry ≤ mark state) :
    run (step mark index work note) state log = state := by
  induction log with
  | nil => rfl
  | cons entry rest ih =>
    have skip : step mark index work note state entry = state :=
      if_pos (covered entry List.mem_cons_self)
    rw [run_cons, skip]
    exact ih fun other member => covered other (List.mem_cons_of_mem _ member)

include noted

theorem mark_step (state : State) (entry : Entry) :
    mark state ≤ mark (step mark index work note state entry) ∧
      index entry ≤ mark (step mark index work note state entry) := by
  rw [step]
  split_ifs with covered
  · exact ⟨le_rfl, covered⟩
  · rw [noted]
    exact ⟨(not_le.mp covered).le, le_rfl⟩

/-- A run leaves a watermark that covers all it went through. -/
theorem run_covers (state : State) (log : List Entry) :
    mark state ≤ mark (run (step mark index work note) state log) ∧
      ∀ entry ∈ log, index entry ≤ mark (run (step mark index work note) state log) := by
  induction log generalizing state with
  | nil => exact ⟨le_rfl, List.forall_mem_nil _⟩
  | cons entry rest ih =>
    obtain ⟨keeps, reaches⟩ := mark_step noted state entry
    obtain ⟨grows, covers⟩ := ih (step mark index work note state entry)
    rw [run_cons]
    refine ⟨keeps.trans grows, ?_⟩
    exact List.forall_mem_cons.mpr ⟨reaches.trans grows, covers⟩

/-- Starting over from a state of the run gets no further back. -/
theorem run_take_again (state : State) (log : List Entry) (done count : Nat) :
    run (step mark index work note) (run (step mark index work note) state (log.take done))
      (log.take count) = run (step mark index work note) state (log.take (max done count)) := by
  have covers : ∀ entry ∈ log.take done,
      index entry ≤ mark (run (step mark index work note) state (log.take done)) :=
    (run_covers noted state (log.take done)).2
  rcases Nat.le_total count done with behind | ahead
  · rw [Nat.max_eq_left behind]
    apply run_skips
    intro entry member
    exact covers entry ((List.take_prefix_take_left behind).subset member)
  · obtain ⟨rest, split⟩ : log.take done <+: log.take count := List.take_prefix_take_left ahead
    rw [Nat.max_eq_right ahead, ← split, run_append, run_append, run_skips _ _ covers]

end Skipping

section Crashes

variable {mark : State → Nat} {index : Entry → Nat} {work note : State → Entry → State}
  (noted : ∀ state entry, mark (note state entry) = index entry)

/-- Doing the entry again changes nothing, and it leaves the watermark alone. -/
structure Repeatable (mark : State → Nat) (work : State → Entry → State) (entry : Entry) :
    Prop where
  again : ∀ state, work (work state entry) entry = work state entry
  unmarked : ∀ state, mark (work state entry) = mark state

inductive Checkpoint (mark : State → Nat) (index : Entry → Nat)
    (work note : State → Entry → State) (start : State) (log : List Entry) : State → Prop
  | whole (done : Nat) :
      Checkpoint mark index work note start log
        (run (step mark index work note) start (log.take done))
  | partway (done : Nat) (entry : Entry) (next : log[done]? = some entry)
      (repeatable : Repeatable mark work entry)
      (live : ¬ index entry ≤ mark (run (step mark index work note) start (log.take done))) :
      Checkpoint mark index work note start log
        (work (run (step mark index work note) start (log.take done)) entry)

include noted

variable (start : State) (log : List Entry)
include start log

/-- Replaying from halfway through an entry. -/
theorem run_take_partway {done : Nat} {entry : Entry} (next : log[done]? = some entry)
    (repeatable : Repeatable mark work entry)
    (live : ¬ index entry ≤ mark (run (step mark index work note) start (log.take done)))
    (count : Nat) :
    run (step mark index work note)
        (work (run (step mark index work note) start (log.take done)) entry) (log.take count) =
      if count ≤ done then work (run (step mark index work note) start (log.take done)) entry
      else run (step mark index work note) start (log.take count) := by
  have covers : ∀ other ∈ log.take done, index other ≤
      mark (work (run (step mark index work note) start (log.take done)) entry) := by
    intro other member
    rw [repeatable.unmarked]
    exact (run_covers noted start (log.take done)).2 other member
  split_ifs with behind
  · apply run_skips
    intro other member
    exact covers other ((List.take_prefix_take_left behind).subset member)
  -- the entry is done again, and only now is the watermark moved past it
  have grown : log.take (done + 1) = log.take done ++ [entry] := by
    rw [List.take_add_one, next]
    rfl
  obtain ⟨rest, split⟩ : log.take (done + 1) <+: log.take count :=
    List.take_prefix_take_left (by omega)
  have caught : step mark index work note
      (work (run (step mark index work note) start (log.take done)) entry) entry =
      step mark index work note (run (step mark index work note) start (log.take done))
        entry := by
    simp [step, repeatable.unmarked, if_neg live, repeatable.again]
  rw [← split, grown, run_append, run_append, run_skips _ _ covers, run_append, run_append,
    run_cons, run_nil, run_cons, run_nil, caught]

theorem covered_of_taken {done position : Nat} {entry : Entry} (found : log[position]? = some entry)
    (before : position < done) :
    index entry ≤ mark (run (step mark index work note) start (log.take done)) := by
  apply (run_covers noted start (log.take done)).2
  rw [List.mem_iff_getElem?]
  exact ⟨position, by rw [List.getElem?_take_of_lt before, found]⟩

/-- Half of an entry from a state that is past the entries before it. -/
theorem checkpoint_half {done position : Nat} (reaches : position ≤ done) {entry : Entry}
    (found : log[position]? = some entry) (repeatable : Repeatable mark work entry) :
    Checkpoint mark index work note start log
      (half mark index work (run (step mark index work note) start (log.take done)) entry) := by
  rw [half]
  split_ifs with covered
  · exact .whole done
  have here : done = position := by
    by_contra different
    exact covered (covered_of_taken noted start log found (by omega))
  subst here
  exact .partway done entry found repeatable covered

theorem checkpoint_lifetime {state : State}
    (checkpoint : Checkpoint mark index work note start log state) (crash : Crash)
    (safe : ∀ entry, log[crash.position]? = some entry → crash.worked = true →
      Repeatable mark work entry) :
    Checkpoint mark index work note start log
      (lifetime (step mark index work note) (half mark index work) log state crash) := by
  have resumed : Checkpoint mark index work note start log
      (run (step mark index work note) state (log.take crash.position)) := by
    cases checkpoint with
    | whole done =>
      rw [run_take_again noted]
      exact .whole _
    | partway done entry next repeatable live =>
      rw [run_take_partway noted start log next repeatable live]
      split_ifs
      · exact .partway done entry next repeatable live
      · exact .whole _
  simp only [lifetime]
  split_ifs with worked
  · cases found : log[crash.position]? with
    | none => exact resumed
    | some entry =>
      have struck := safe entry found worked
      change Checkpoint mark index work note start log (half mark index work _ entry)
      cases checkpoint with
      | whole done =>
        rw [run_take_again noted]
        exact checkpoint_half noted start log (le_max_right _ _) found
          struck
      | partway done other next repeatable live =>
        rw [run_take_partway noted start log next repeatable live]
        split_ifs with behind
        · rw [half]
          split_ifs with covered
          · exact .partway done other next repeatable live
          -- the same entry is struck again: its work is already there
          have here : crash.position = done := by
            by_contra different
            rw [repeatable.unmarked] at covered
            exact covered (covered_of_taken noted start log found (by omega))
          rw [here, next] at found
          cases found
          rw [repeatable.again]
          exact .partway done entry next repeatable live
        · exact checkpoint_half noted start log le_rfl found struck
  · exact resumed

theorem checkpoint_recovers (state : State)
    (checkpoint : Checkpoint mark index work note start log state) :
    run (step mark index work note) state log = run (step mark index work note) start log := by
  have whole : ∀ count, log.length ≤ count → log.take count = log :=
    fun count long => List.take_of_length_le long
  cases checkpoint with
  | whole done =>
    have ends : run (step mark index work note) _ (log.take log.length) = _ :=
      run_take_again noted start log done log.length
    rwa [whole _ le_rfl, whole _ (le_max_right _ _)] at ends
  | partway done entry next repeatable live =>
    have inside : done < log.length := (List.getElem?_eq_some_iff.mp next).1
    have ends := run_take_partway noted start log next repeatable live log.length
    rwa [if_neg (by omega), whole _ le_rfl] at ends

/-- Whatever the crashes, the last start ends where a run without them ends. -/
theorem recover_eq_run (crashes : List Crash)
    (safe : ∀ crash ∈ crashes, ∀ entry, log[crash.position]? = some entry →
      crash.worked = true → Repeatable mark work entry) :
    recover (step mark index work note) (half mark index work) log start crashes =
      run (step mark index work note) start log := by
  apply checkpoint_recovers noted
  suffices resumes : ∀ state, Checkpoint mark index work note start log state →
      Checkpoint mark index work note start log
        (crashes.foldl (lifetime (step mark index work note) (half mark index work) log)
          state) from resumes start (.whole 0)
  induction crashes with
  | nil => exact fun state checkpoint => checkpoint
  | cons crash rest ih =>
    intro state checkpoint
    apply ih
    · exact fun other member => safe other (List.mem_cons_of_mem _ member)
    · exact checkpoint_lifetime noted start log checkpoint crash
        (safe crash List.mem_cons_self)

end Crashes

/-- A run whose watermark is below an ascending log skips nothing. -/
theorem run_eq_once {mark : State → Nat} {index : Entry → Nat}
    {work note : State → Entry → State}
    (noted : ∀ state entry, mark (note state entry) = index entry) (state : State)
    (log : List Entry) (ascending : log.Pairwise fun left right => index left < index right)
    (below : ∀ entry ∈ log, mark state < index entry) :
    run (step mark index work note) state log = once work note state log := by
  induction log generalizing state with
  | nil => rfl
  | cons entry rest ih =>
    obtain ⟨later, restAscending⟩ := List.pairwise_cons.mp ascending
    have done : step mark index work note state entry = note (work state entry) entry :=
      if_neg (not_le.mpr (below entry List.mem_cons_self))
    rw [run_cons, done, ih _ restAscending]
    · rfl
    · intro other member
      rw [noted]
      exact later other member

end Bongo.Replay
