import Bongo.ByteKeys

/-!
The limiter on failed logins. Every failure is counted for the source IP and for
the pair of IP and account, each in a window of its own; a success takes the
pair's failures off the IP's count again.
-/

namespace Bongo.AuthLimit

open ByteKeys

section Limiter

structure State where
  count : Int
  first : Int
  deriving DecidableEq

/-- Times are nanoseconds, and a call reads the clock once. -/
structure Limiter where
  max : Int
  window : Int
  entries : Bytes → Option State
  sweep : Nat

def sweepEvery : Nat := 1024

def new (maxFailures window : Int) : Limiter := ⟨maxFailures, window, fun _ => none, 0⟩

def Limiter.put (l : Limiter) (key : Bytes) (entry : Option State) : Limiter :=
  { l with entries := fun other => if other = key then entry else l.entries other }

def Limiter.elapsed (l : Limiter) (now : Int) (st : State) : Bool := now - st.first > l.window

def blocked (l : Limiter) (now : Int) (key : Bytes) : Bool × Limiter :=
  if key = [] then (false, l)
  else
    match l.entries key with
    | none => (false, l)
    | some st =>
      if l.elapsed now st then (false, l.put key none) else (st.count ≥ l.max, l)

def Limiter.swept (l : Limiter) (now : Int) : Limiter :=
  if l.sweep + 1 ≥ sweepEvery then
    { l with
      sweep := 0
      entries := fun key => (l.entries key).filter fun st => !l.elapsed now st }
  else { l with sweep := l.sweep + 1 }

def record (l : Limiter) (now : Int) (key : Bytes) : Bool × Limiter :=
  if key = [] then (false, l)
  else
    let l := l.swept now
    match l.entries key with
    | none => (1 ≥ l.max, l.put key (some ⟨1, now⟩))
    | some st =>
      if l.elapsed now st then (1 ≥ l.max, l.put key (some ⟨1, now⟩))
      else (st.count + 1 ≥ l.max, l.put key (some { st with count := st.count + 1 }))

variable (normal : Bytes → Bytes)

/-- `normal` is `strings.ToLower` after `strings.TrimSpace`. -/
def pairKey (ip account : Bytes) : Bytes :=
  ascii "acct" ++ 0 :: (ip ++ 0 :: normal account)

def fail (l : Limiter) (pairNow now : Int) (ip account : Bytes) : Bool × Limiter :=
  if ip = [] then (false, l)
  else record (record l pairNow (pairKey normal ip account)).2 now ip

def succeed (l : Limiter) (now : Int) (ip account : Bytes) : Limiter :=
  if ip = [] then l
  else
    match l.entries (pairKey normal ip account) with
    | none => l
    | some pair =>
      let rest := l.put (pairKey normal ip account) none
      if l.elapsed now pair then rest
      else
        match rest.entries ip with
        | none => rest
        | some st =>
          if st.count - pair.count ≤ 0 then rest.put ip none
          else rest.put ip (some { st with count := st.count - pair.count })

end Limiter

section Calls

variable (normal : Bytes → Bytes) (ip : Bytes)

/-- Entries are lost only after their window. -/
structure Dropped (now : Int) (before after : Limiter) : Prop where
  max : after.max = before.max
  window : after.window = before.window
  entries : ∀ key, after.entries key = before.entries key ∨ after.entries key = none ∧
      ∃ st, before.entries key = some st ∧ before.window < now - st.first

theorem Dropped.refl (now : Int) (l : Limiter) : Dropped now l l := ⟨rfl, rfl, fun _ => .inl rfl⟩

variable {key : Bytes} {now : Int}

theorem Dropped.found {before after : Limiter} (dropped : Dropped now before after) {st : State}
    (found : after.entries key = some st) : before.entries key = some st := by
  rcases dropped.entries key with same | ⟨gone, _⟩
  · rw [← same, found]
  · rw [gone] at found
    cases found

@[simp] theorem put_here (l : Limiter) (key : Bytes) (entry : Option State) :
    (l.put key entry).entries key = entry := if_pos rfl

theorem put_other (l : Limiter) {other : Bytes} (entry : Option State) (different : other ≠ key) :
    (l.put key entry).entries other = l.entries other :=
  if_neg different

theorem elapsed_iff (l : Limiter) (now : Int) (st : State) :
    l.elapsed now st = true ↔ l.window < now - st.first := by
  rw [Limiter.elapsed, decide_eq_true_iff, gt_iff_lt]

theorem blocked_dropped (l : Limiter) (now : Int) (key : Bytes) :
    Dropped now l (blocked l now key).2 := by
  rw [blocked]
  split
  next => exact Dropped.refl now l
  next =>
    cases found : l.entries key with
    | none => exact Dropped.refl now l
    | some st =>
      simp only
      split
      next late =>
        refine ⟨rfl, rfl, fun other => ?_⟩
        by_cases here : other = key
        · rw [here, put_here]
          exact .inr ⟨rfl, st, found, (elapsed_iff l now st).mp late⟩
        · exact .inl (put_other l none here)
      next => exact Dropped.refl now l

theorem blocked_false {l : Limiter} (named : key ≠ []) (free : (blocked l now key).1 = false)
    {st : State} (found : (blocked l now key).2.entries key = some st) : st.count < l.max := by
  have earlier := (blocked_dropped l now key).found found
  rw [blocked, if_neg named, earlier] at free found
  simp only at free found
  split at free
  next late =>
    rw [if_pos late, put_here] at found
    cases found
  next => exact not_le.mp (of_decide_eq_false free)

theorem swept_dropped (l : Limiter) (now : Int) : Dropped now l (l.swept now) := by
  rw [Limiter.swept]
  split
  next =>
    refine ⟨rfl, rfl, fun key => ?_⟩
    cases found : l.entries key with
    | none => exact .inl (by simp [found])
    | some st =>
      cases late : l.elapsed now st with
      | false => exact .inl (by simp [found, late])
      | true =>
        refine .inr ⟨by simp [found, late], st, rfl, (elapsed_iff l now st).mp late⟩
  next => exact ⟨rfl, rfl, fun _ => .inl rfl⟩

def counted (l : Limiter) (now : Int) (key : Bytes) : State :=
  match l.entries key with
  | none => ⟨1, now⟩
  | some st => if l.elapsed now st then ⟨1, now⟩ else { st with count := st.count + 1 }

/-- It does not matter whether an entry whose window has elapsed is still there. -/
theorem counted_dropped {l after : Limiter} {later : Int} (order : now ≤ later)
    (dropped : Dropped now l after) (key : Bytes) :
    counted after later key = counted l later key := by
  have spans : ∀ st, after.elapsed later st = l.elapsed later st := by
    intro st
    rw [Limiter.elapsed, Limiter.elapsed, dropped.window]
  rw [counted, counted]
  rcases dropped.entries key with same | ⟨gone, st, found, late⟩
  · rw [same]
    cases l.entries key with
    | none => rfl
    | some st => simp [spans]
  · rw [gone, found]
    have still : l.elapsed later st = true := (elapsed_iff l later st).mpr (by omega)
    simp [still]

theorem record_eq (l : Limiter) (now : Int) (named : key ≠ []) :
    (record l now key).2 = (l.swept now).put key (some (counted l now key)) := by
  rw [← counted_dropped (le_refl now) (swept_dropped l now), record, if_neg named, counted]
  simp only
  cases (l.swept now).entries key with
  | none => rfl
  | some st =>
    simp only
    split
    next => rfl
    next => rfl

theorem pairKey_ne (account : Bytes) : pairKey normal ip account ≠ ip := by
  intro same
  have lengths := congrArg List.length same
  simp only [pairKey, List.length_append, List.length_cons] at lengths
  omega

theorem pairKey_named (account : Bytes) : pairKey normal ip account ≠ [] := by
  simp [pairKey]

theorem pairKey_inj (account other : Bytes) :
    pairKey normal ip account = pairKey normal ip other ↔ normal account = normal other := by
  simp [pairKey]

/-- Both counts go up by one, and elapsed entries may be dropped on the way. -/
theorem fail_dropped (l : Limiter) {pairNow : Int} (order : pairNow ≤ now) (named : ip ≠ [])
    (account : Bytes) :
    Dropped now
      ((l.put (pairKey normal ip account)
          (some (counted l pairNow (pairKey normal ip account)))).put ip (some (counted l now ip)))
      (fail normal l pairNow now ip account).2 := by
  have apart := pairKey_ne normal ip account
  have first := record_eq l pairNow (pairKey_named normal ip account)
  have second := record_eq (record l pairNow (pairKey normal ip account)).2 now named
  rw [fail, if_neg named, second, first]
  have early := swept_dropped l pairNow
  have same : counted ((l.swept pairNow).put (pairKey normal ip account)
      (some (counted l pairNow (pairKey normal ip account)))) now ip = counted l now ip := by
    rw [← counted_dropped order early ip, counted, counted, put_other _ _ apart.symm]
    rfl
  rw [same]
  have again := swept_dropped ((l.swept pairNow).put (pairKey normal ip account)
    (some (counted l pairNow (pairKey normal ip account)))) now
  refine ⟨again.max.trans early.max, again.window.trans early.window, fun key => ?_⟩
  by_cases atIP : key = ip
  · rw [atIP, put_here, put_here]
    exact .inl rfl
  rw [put_other _ _ atIP, put_other _ _ atIP]
  rcases again.entries key with kept | ⟨gone, st, found, late⟩
  · rw [kept]
    by_cases atPair : key = pairKey normal ip account
    · rw [atPair, put_here, put_here]
      exact .inl rfl
    rw [put_other _ _ atPair, put_other _ _ atPair]
    rcases early.entries key with alike | ⟨gone, st, found, late⟩
    · exact .inl alike
    · exact .inr ⟨gone, st, found, by
        change l.window < now - st.first
        omega⟩
  · refine .inr ⟨gone, st, ?_, early.window ▸ late⟩
    by_cases atPair : key = pairKey normal ip account
    · rw [atPair, put_here] at found ⊢
      exact found
    · rw [put_other _ _ atPair] at found ⊢
      exact early.found found

end Calls

end Bongo.AuthLimit
