import Bongo.AuthLimit
import Bongo.Histories

/-!
How many guesses the limiter on failed logins leaves. A pair that was started
late in one window of the IP can be forgiven in the next. The accounts kept
beside a run tell how many failures are carried over so; while they are no more
than the limit, an attacker has three times the limit in any window.
-/

namespace Bongo.AuthLimit

open ByteKeys Histories

/-! Runs of login attempts, with the accounts kept beside them. -/
section Runs

variable (normal : Bytes → Bytes) (ip : Bytes)

inductive Ending where
  | fail (pairNow now : Int)
  | succeed (now : Int)
  deriving DecidableEq

structure Attempt where
  account : Bytes
  checked : Int
  ending : Ending
  deriving DecidableEq

/-- A failed attempt: the account in its normal form, and the time at which it
was counted for the IP. -/
structure Failure where
  account : Bytes
  time : Int
  deriving DecidableEq

/-- `unforgiven` are the failures on accounts that did not succeed since. A
period starts when the IP's window has run out since the IP was last counted
afresh (at `last`); `carried` counts the failures from before the period that
were forgiven in it. -/
structure Book where
  now : Int
  failures : List Failure
  unforgiven : List Failure
  successes : List Bytes
  count : Int
  last : Option Int
  start : Int
  before : Int
  carried : Nat
  carriedBefore : Nat
  deriving DecidableEq

structure Run where
  limiter : Limiter
  book : Book

def start (maxFailures window origin : Int) : Run :=
  ⟨new maxFailures window, ⟨origin, [], [], [], 0, none, origin, origin, 0, 0⟩⟩

def Limiter.starts (l : Limiter) (now : Int) : Bool :=
  match l.entries ip with
  | none => true
  | some st => l.elapsed now st

def Book.fail (book : Book) (window : Int) (afresh : Bool) (account : Bytes) (now : Int) : Book :=
  let opens := afresh && book.last.all fun first => now - first > window
  { now := now
    failures := book.failures ++ [⟨account, now⟩]
    unforgiven := book.unforgiven ++ [⟨account, now⟩]
    successes := book.successes
    count := if afresh then 1 else book.count + 1
    last := if afresh then some now else book.last
    start := if opens then now else book.start
    before := if opens then (if book.last.isNone then now else book.start) else book.before
    carried := if opens then 0 else book.carried
    carriedBefore := if opens then book.carried else book.carriedBefore }

def Limiter.forgives (l : Limiter) (now : Int) (account : Bytes) : Option State :=
  match l.entries (pairKey normal ip account), l.entries ip with
  | some pair, some _ => if l.elapsed now pair then none else some pair
  | _, _ => none

def tally (who : Bytes → Bool) (span : Int → Bool) (failures : List Failure) : Nat :=
  failures.countP fun failure => who failure.account && span failure.time

def Book.succeed (book : Book) (forgiven : Option State) (account : Bytes) (now : Int) : Book :=
  { book with
    now := now
    unforgiven := book.unforgiven.filter fun failure => failure.account ≠ account
    successes := account :: book.successes
    count :=
      match forgiven with
      | none => book.count
      | some pair => if book.count - pair.count ≤ 0 then 0 else book.count - pair.count
    carried :=
      match forgiven with
      | none => book.carried
      | some pair =>
        book.carried + tally (· == account)
          (fun time => pair.first ≤ time && time < book.start) book.unforgiven }

/-- An attempt that is not blocked ends in a failure or a success. -/
def attempt (run : Run) (a : Attempt) : Run :=
  let answer := blocked run.limiter a.checked ip
  let l := answer.2
  if answer.1 then ⟨l, { run.book with now := a.checked }⟩
  else
    match a.ending with
    | .fail pairNow now =>
      ⟨(fail normal l pairNow now ip a.account).2,
        run.book.fail l.window (l.starts ip now) (normal a.account) now⟩
    | .succeed now =>
      ⟨succeed normal l now ip a.account,
        run.book.succeed (l.forgives normal ip now a.account) (normal a.account) now⟩

def Ending.begins : Ending → Int
  | .fail pairNow _ => pairNow
  | .succeed now => now

def Ending.ends : Ending → Int
  | .fail _ now => now
  | .succeed now => now

/-- The clock does not go back. -/
def Timely (run : Run) (a : Attempt) : Prop :=
  run.book.now ≤ a.checked ∧ a.checked ≤ a.ending.begins ∧ a.ending.begins ≤ a.ending.ends

instance (run : Run) (a : Attempt) : Decidable (Timely run a) :=
  inferInstanceAs (Decidable (_ ∧ _ ∧ _))

/-- No more failures than the limit are carried over into a period. -/
def Light (run : Run) (a : Attempt) : Prop :=
  ((attempt normal ip run a).book.carried : Int) ≤ run.limiter.max

instance (run : Run) (a : Attempt) : Decidable (Light normal ip run a) :=
  inferInstanceAs (Decidable (_ ≤ _))

end Runs

theorem tally_concat (who : Bytes → Bool) (span : Int → Bool) (failures : List Failure)
    (failure : Failure) :
    tally who span (failures ++ [failure]) =
      tally who span failures + if who failure.account && span failure.time then 1 else 0 := by
  rw [tally, List.countP_append, List.countP_singleton]
  rfl

variable {failures : List Failure} {span : Int → Bool}

section

variable (who : Bytes → Bool)
include who

theorem tally_mono {wide : Int → Bool}
    (wider : ∀ failure ∈ failures, span failure.time = true → wide failure.time = true) :
    tally who span failures ≤ tally who wide failures := by
  apply List.countP_mono_left
  intro failure member counted
  rw [Bool.and_eq_true] at counted ⊢
  exact ⟨counted.1, wider failure member counted.2⟩

theorem tally_congr (other : Int → Bool)
    (same : ∀ failure ∈ failures, span failure.time = other failure.time) :
    tally who span failures = tally who other failures := by
  apply le_antisymm
  · exact tally_mono who fun failure member held => by rw [← same failure member, held]
  · exact tally_mono who fun failure member held => by rw [same failure member, held]

theorem tally_zero (none : ∀ failure ∈ failures, span failure.time = false) :
    tally who span failures = 0 := by
  apply List.countP_eq_zero.mpr
  intro failure member counted
  rw [Bool.and_eq_true, none failure member] at counted
  exact absurd counted.2 (by decide)

theorem tally_cut (span : Int → Bool) (point : Int) (failures : List Failure) :
    tally who span failures = tally who (fun time => span time && time < point) failures +
        tally who (fun time => span time && point ≤ time) failures := by
  rw [tally, List.countP_eq_countP_filter_add failures _ fun failure => failure.time < point,
    List.countP_filter, List.countP_filter]
  congr 1 <;> exact List.countP_congr fun failure _ => by simp [Bool.and_assoc]

theorem tally_forget (span : Int → Bool) (account : Bytes) (counts : who account = true)
    (failures : List Failure) :
    tally who span (failures.filter fun failure => failure.account ≠ account) +
      tally (· == account) span failures = tally who span failures := by
  rw [tally.eq_def who span failures, List.countP_eq_countP_filter_add failures _
    fun failure => failure.account ≠ account]
  congr 1
  rw [List.countP_filter]
  refine List.countP_congr fun failure _ => ?_
  by_cases here : failure.account = account
  · simp [here, counts]
  · simp [here]

end

variable {account : Bytes}

theorem tally_forget_other (span : Int → Bool) {other : Bytes} (apart : other ≠ account)
    (failures : List Failure) :
    tally (· == other) span (failures.filter fun failure => failure.account ≠ account) =
      tally (· == other) span failures := by
  rw [tally, List.countP_filter]
  refine List.countP_congr fun failure _ => ?_
  by_cases here : failure.account = other
  · simp [here, apart]
  · simp [here]

section Balance

variable (normal : Bytes → Bytes) (ip : Bytes) (S : List Bytes)

def inside (account : Bytes) : Bool := S.contains account

def outside (account : Bytes) : Bool := !S.contains account

/-- What holds between the limiter and the accounts kept beside it, where `S`
has the accounts that ever succeed. `balance` is over the current period and
`brought` over the one before it. -/
structure Sound (l : Limiter) (book : Book) : Prop where
  entry : ∀ st, l.entries ip = some st → book.last = some st.first ∧ st.count = book.count
  absent : l.entries ip = none → ∀ first, book.last = some first →
    book.count = 0 ∨ l.window < book.now - first
  limit : 0 ≤ book.count ∧ book.count ≤ l.max
  idle : book.last = none → book.failures = [] ∧ book.unforgiven = []
  order : ∀ first, book.last = some first → book.start ≤ first ∧ first ≤ book.now
  pairs : ∀ account st, normal account ∈ S → l.entries (pairKey normal ip account) = some st →
    st.first ≤ book.now ∧ 0 ≤ st.count ∧
      st.count ≤ tally (· == normal account) (fun time => st.first ≤ time) book.unforgiven
  among : ∀ failure ∈ book.unforgiven, failure ∈ book.failures
  past : ∀ failure ∈ book.failures, failure.time ≤ book.now
  within : ∀ failure ∈ book.failures, ∀ first, book.last = some first →
    failure.time ≤ first + l.window
  far : ∀ failure ∈ book.failures, failure.time < book.before → failure.time + l.window < book.start
  back : book.before ≤ book.start
  balance : (tally (outside S) (fun time => book.start ≤ time) book.failures : Int) +
    tally (inside S) (fun time => book.start ≤ time) book.unforgiven ≤ book.count + book.carried
  brought : (tally (outside S) (fun time => book.before ≤ time && time < book.start)
      book.failures : Int) +
    tally (inside S) (fun time => book.before ≤ time && time < book.start) book.unforgiven +
      book.carried ≤ l.max + book.carriedBefore
  light : (book.carried : Int) ≤ l.max ∧ (book.carriedBefore : Int) ≤ l.max
  bound : ∀ t, (tally (outside S) (fun time => t ≤ time && time < t + l.window)
    book.failures : Int) ≤ 3 * l.max

theorem start_sound {maxFailures : Int} (window origin : Int) (positive : 1 ≤ maxFailures) :
    Sound normal ip S (start maxFailures window origin).limiter
      (start maxFailures window origin).book := by
  constructor
  case limit => exact ⟨le_refl _, by change 0 ≤ maxFailures; omega⟩
  case balance => exact le_refl _
  case brought => change (0 : Int) ≤ maxFailures + 0; omega
  case light => change (0 : Int) ≤ maxFailures ∧ (0 : Int) ≤ maxFailures; omega
  case bound =>
    intro t
    change (0 : Int) ≤ 3 * maxFailures
    omega
  case idle => exact fun _ => ⟨rfl, rfl⟩
  case back => exact le_refl _
  all_goals simp [start, new]

variable {normal ip S}

variable {now : Int}

/-- A new failure keeps the bound: what lies within one window before it belongs
to the current period and the one before. -/
theorem bound_concat {window max start before count : Int} {carried carriedBefore : Nat}
    {account : Bytes} (bound : ∀ t, (tally (outside S) (fun time => t ≤ time && time < t + window)
      failures : Int) ≤ 3 * max)
    (far : ∀ failure ∈ failures ++ [⟨account, now⟩], failure.time < before →
      failure.time + window < start) (back : before ≤ start) (begun : start ≤ now)
    (unforgiven : List Failure) (balance : (tally (outside S) (fun time => start ≤ time)
        (failures ++ [⟨account, now⟩]) : Int) +
      tally (inside S) (fun time => start ≤ time) unforgiven ≤ count + carried)
    (brought : (tally (outside S) (fun time => before ≤ time && time < start)
        (failures ++ [⟨account, now⟩]) : Int) +
      tally (inside S) (fun time => before ≤ time && time < start) unforgiven + carried ≤
        max + carriedBefore) (limit : count ≤ max) (light : (carriedBefore : Int) ≤ max) (t : Int) :
    (tally (outside S) (fun time => t ≤ time && time < t + window)
      (failures ++ [⟨account, now⟩]) : Int) ≤ 3 * max := by
  by_cases contains : t ≤ now ∧ now < t + window
  · have wide : tally (outside S) (fun time => t ≤ time && time < t + window)
        (failures ++ [⟨account, now⟩]) ≤
          tally (outside S) (fun time => before ≤ time) (failures ++ [⟨account, now⟩]) := by
      apply tally_mono
      intro failure member inSpan
      simp only [Bool.and_eq_true, decide_eq_true_eq] at inSpan ⊢
      by_contra early
      have gap := far failure member (by omega)
      omega
    have cut := tally_cut (outside S) (fun time => before ≤ time) start
      (failures ++ [⟨account, now⟩])
    have late : tally (outside S) (fun time => decide (before ≤ time) && decide (start ≤ time))
        (failures ++ [⟨account, now⟩]) =
          tally (outside S) (fun time => start ≤ time) (failures ++ [⟨account, now⟩]) := by
      apply tally_congr
      intro failure _
      rw [Bool.and_eq_right_iff_imp]
      simp only [decide_eq_true_eq]
      intro onward
      omega
    rw [late] at cut
    omega
  · rw [tally_concat, if_neg (by
      simp only [Bool.and_eq_true, decide_eq_true_eq]
      exact fun counted => contains counted.2)]
    exact bound t

theorem tally_singleton_self (account : Bytes) {first : Int} (order : first ≤ now)
    (failures : List Failure) :
    tally (· == account) (fun time => first ≤ time) (failures ++ [⟨account, now⟩]) =
      tally (· == account) (fun time => first ≤ time) failures + 1 := by
  rw [tally_concat, if_pos (by simp [order])]

def Limiter.failing (normal : Bytes → Bytes) (ip : Bytes) (l : Limiter) (pairNow : Int)
    (account : Bytes) (entry : State) : Limiter :=
  (l.put (pairKey normal ip account)
    (some (counted l pairNow (pairKey normal ip account)))).put ip (some entry)

/-- Each failure is on an account of one of the two kinds. -/
theorem tally_both (span : Int → Bool) (failures unforgiven : List Failure) (failure : Failure) :
    tally (outside S) span (failures ++ [failure]) + tally (inside S) span
      (unforgiven ++ [failure]) =
      tally (outside S) span failures + tally (inside S) span unforgiven +
        if span failure.time then 1 else 0 := by
  rw [tally_concat, tally_concat]
  cases known : S.contains failure.account with
  | true =>
    simp only [outside, inside, known, Bool.not_true, Bool.false_and, Bool.true_and,
      Bool.false_eq_true, if_false]
    omega
  | false =>
    simp only [outside, inside, known, Bool.not_false, Bool.false_and, Bool.true_and,
      Bool.false_eq_true, if_false]
    omega

variable {l : Limiter} {book : Book} (sound : Sound normal ip S l book)
include sound

theorem Sound.waits (later : book.now ≤ now) (missing : l.entries ip = none) (first : Int)
    (last : book.last = some first) : book.count = 0 ∨ l.window < now - first := by
  rcases sound.absent missing first last with zero | gone
  · exact .inl zero
  · exact .inr (by omega)

theorem Sound.drop {after : Limiter} (later : book.now ≤ now) (dropped : Dropped now l after) :
    Sound normal ip S after { book with now := now } := by
  have found {key st} (stored : after.entries key = some st) := dropped.found stored
  obtain ⟨max, window, entries, sweep⟩ := after
  obtain ⟨rfl, rfl, kept⟩ := dropped
  refine { sound with
    entry := fun st stored => sound.entry st (found stored), absent := ?absent,
    order := fun first last => (sound.order first last).imp_right (le_trans · later),
    pairs := ?pairs, past := fun failure member => le_trans (sound.past failure member) later }
  case absent =>
    intro missing first last
    rcases kept ip with same | ⟨_, st, stored, late⟩
    · exact sound.waits later (same.symm.trans missing) first last
    · cases (sound.entry st stored).1.symm.trans last
      exact .inr late
  case pairs =>
    intro account st member stored
    exact (sound.pairs account st member (found stored)).imp_left (le_trans · later)

variable {pairNow : Int} (later : book.now ≤ pairNow) (order : pairNow ≤ now)
include later order

theorem Sound.count_pair {account : Bytes} (entry : Option State) {other : Bytes} (st : State)
    (member : normal other ∈ S)
    (found : ((l.put (pairKey normal ip account)
      (some (counted l pairNow (pairKey normal ip account)))).put ip entry).entries
        (pairKey normal ip other) = some st) :
    st.first ≤ now ∧ 0 ≤ st.count ∧
      st.count ≤ tally (· == normal other) (fun time => st.first ≤ time)
        (book.unforgiven ++ [⟨normal account, now⟩]) := by
  rw [put_other _ _ (pairKey_ne normal ip other)] at found
  by_cases same : pairKey normal ip other = pairKey normal ip account
  · rw [same, put_here] at found
    have alike := (pairKey_inj normal ip other account).mp same
    rw [alike] at member ⊢
    cases Option.some.inj found
    rw [counted]
    cases earlier : l.entries (pairKey normal ip account) with
    | none =>
      simp only
      rw [tally_singleton_self _ order]
      omega
    | some pair =>
      have held := sound.pairs account pair member earlier
      simp only
      split
      next =>
        simp only
        rw [tally_singleton_self _ order]
        omega
      next =>
        simp only
        rw [tally_singleton_self _ (by omega)]
        omega
  · rw [put_other _ _ same] at found
    have held := sound.pairs other st member found
    rw [tally_concat]
    omega

/-- One more failure, counted from `first` on in the period since `start`. -/
theorem Sound.tallied (account : Bytes) (count first : Int) {start : Int} (before : Int)
    (carried carriedBefore : Nat)
    (begun : start ≤ first) (seen : first ≤ now) (fits : now ≤ first + l.window)
    (limit : 0 ≤ count ∧ count ≤ l.max) (back : before ≤ start)
    (recent : ∀ failure ∈ book.failures, failure.time ≤ first + l.window)
    (far : ∀ failure ∈ book.failures, failure.time < before → failure.time + l.window < start)
    (balance : (tally (outside S) (fun time => start ≤ time) book.failures : Int) +
      tally (inside S) (fun time => start ≤ time) book.unforgiven + 1 ≤ count + carried)
    (brought : (tally (outside S) (fun time => before ≤ time && time < start) book.failures : Int) +
      tally (inside S) (fun time => before ≤ time && time < start) book.unforgiven + carried ≤
        l.max + carriedBefore) (light : (carried : Int) ≤ l.max ∧ (carriedBefore : Int) ≤ l.max) :
    Sound normal ip S (l.failing normal ip pairNow account ⟨count, first⟩)
      { book with
        now := now
        failures := book.failures ++ [⟨normal account, now⟩]
        unforgiven := book.unforgiven ++ [⟨normal account, now⟩]
        count := count
        last := some first
        start := start
        before := before
        carried := carried
        carriedBefore := carriedBefore } := by
  have all : ∀ {holds : Failure → Prop}, (∀ failure ∈ book.failures, holds failure) →
      holds ⟨normal account, now⟩ →
      ∀ failure ∈ book.failures ++ [⟨normal account, now⟩], holds failure :=
    fun old new => List.forall_mem_append.mpr ⟨old, List.forall_mem_singleton.mpr new⟩
  have far := all far (by simp only; omega)
  have counts := tally_both (S := S) (fun time => start ≤ time) book.failures book.unforgiven
    ⟨normal account, now⟩
  have spares := tally_both (S := S) (fun time => before ≤ time && time < start) book.failures
    book.unforgiven ⟨normal account, now⟩
  rw [if_pos (by simp; omega)] at counts
  rw [if_neg (by simp; omega)] at spares
  have balance : (tally (outside S) (fun time => start ≤ time)
      (book.failures ++ [⟨normal account, now⟩]) : Int) +
      tally (inside S) (fun time => start ≤ time) (book.unforgiven ++ [⟨normal account, now⟩]) ≤
        count + carried := by omega
  have brought : (tally (outside S) (fun time => before ≤ time && time < start)
      (book.failures ++ [⟨normal account, now⟩]) : Int) +
      tally (inside S) (fun time => before ≤ time && time < start)
        (book.unforgiven ++ [⟨normal account, now⟩]) + carried ≤ l.max + carriedBefore := by omega
  refine {
    limit, far, back, balance, brought, light, entry := ?entry, absent := ?absent,
    idle := ?idle, order := ?order, pairs := fun other st => sound.count_pair later order _ st,
    among := ?among, past := ?past, within := ?within,
    bound := bound_concat sound.bound far back (by omega) _ balance brought limit.2 light.2 }
  case entry =>
    rw [Limiter.failing, put_here]
    rintro _ ⟨⟩
    exact ⟨rfl, rfl⟩
  case absent =>
    rw [Limiter.failing, put_here]
    exact nofun
  case idle => exact nofun
  case order =>
    rintro _ ⟨⟩
    exact ⟨begun, seen⟩
  case among =>
    intro failure member
    rcases List.mem_append.mp member with old | new
    · exact List.mem_append_left _ (sound.among failure old)
    · exact List.mem_append_right _ new
  case past =>
    refine all (fun failure old => ?_) (le_refl now)
    have old := sound.past failure old
    change failure.time ≤ now
    omega
  case within =>
    intro failure member earlier last
    cases last
    exact all recent fits failure member

theorem Sound.proceed (account : Bytes) (first : Int) (begun : book.start ≤ first)
    (seen : first ≤ now)
    (fits : now ≤ first + l.window) (newer : ∀ earlier, book.last = some earlier → earlier ≤ first)
    (room : book.count + 1 ≤ l.max) :
    Sound normal ip S (l.failing normal ip pairNow account ⟨book.count + 1, first⟩)
      { book with
        now := now
        failures := book.failures ++ [⟨normal account, now⟩]
        unforgiven := book.unforgiven ++ [⟨normal account, now⟩]
        count := book.count + 1
        last := some first } := by
  have limit := sound.limit
  have balance := sound.balance
  apply sound.tallied later order account _ _ _ _ _ begun seen fits ⟨by omega, room⟩ sound.back ?_
    sound.far (by omega) sound.brought sound.light
  intro failure member
  cases before : book.last with
  | none =>
    rw [(sound.idle before).1] at member
    cases member
  | some earlier =>
    have held := sound.within failure member earlier before
    have newer := newer earlier before
    omega

/-- A failure that opens a period: everything counted so far is older than a
window. -/
theorem Sound.opened (account : Bytes) (wide : 0 ≤ l.window) (positive : 1 ≤ l.max)
    (gone : ∀ first, book.last = some first → l.window < now - first) :
    Sound normal ip S (l.failing normal ip pairNow account ⟨1, now⟩)
      { book with
        now := now
        failures := book.failures ++ [⟨normal account, now⟩]
        unforgiven := book.unforgiven ++ [⟨normal account, now⟩]
        count := 1
        last := some now
        start := now
        before := if book.last.isNone then now else book.start
        carried := 0
        carriedBefore := book.carried } := by
  have tallied := fun before =>
    sound.tallied later order account 1 now before 0 book.carried (le_refl now) (le_refl now)
      (by omega) ⟨Int.one_nonneg, positive⟩
  have light : ((0 : Nat) : Int) ≤ l.max ∧ (book.carried : Int) ≤ l.max :=
    ⟨by omega, sound.light.1⟩
  cases last : book.last with
  | none =>
    obtain ⟨noFailures, noneLeft⟩ := sound.idle last
    rw [noFailures, noneLeft] at tallied ⊢
    exact tallied now (le_refl _) (by simp) (by simp) (by simp [tally])
      (by simp only [tally, List.countP_nil]; omega) light
  | some first =>
    have gone := gone first last
    have ordered := sound.order first last
    have older : ∀ failure ∈ book.failures, failure.time < now := by
      intro failure member
      have held := sound.within failure member first last
      omega
    have stale : ∀ failure ∈ book.unforgiven, failure.time < now :=
      fun failure member => older failure (sound.among failure member)
    refine tallied book.start (by omega) ?_ ?_ ?_ ?_ light
    · intro failure member
      have older := older failure member
      omega
    · intro failure _ early
      omega
    · rw [tally_zero (outside S) fun failure member =>
          decide_eq_false (not_le.mpr (older failure member)),
        tally_zero (inside S) fun failure member =>
          decide_eq_false (not_le.mpr (stale failure member))]
      omega
    · -- the period that ends balances, and nothing in it is as late as now
      have earlier := sound.balance
      have limit := sound.limit
      rw [tally_congr (outside S) (fun time => book.start ≤ time) fun failure member => by
          simp [older failure member],
        tally_congr (inside S) (fun time => book.start ≤ time) fun failure member => by
          simp [stale failure member]]
      omega

theorem Sound.fail (account : Bytes) (wide : 0 ≤ l.window) (positive : 1 ≤ l.max)
    (free : ∀ st, l.entries ip = some st → st.count < l.max) :
    Sound normal ip S (l.failing normal ip pairNow account (counted l now ip))
      (book.fail l.window (l.starts ip now) (normal account) now) := by
  rw [Limiter.starts, counted]
  cases found : l.entries ip with
  | none =>
    cases opens : book.last.all fun first => decide (now - first > l.window) with
    | true =>
      have gone : ∀ first, book.last = some first → l.window < now - first := by
        intro first last
        rw [last] at opens
        exact of_decide_eq_true opens
      simp only [Book.fail, opens]
      exact sound.opened later order account wide positive gone
    | false =>
      -- the IP's entry was cleared, so the count starts from nothing
      cases last : book.last with
      | none =>
        rw [last] at opens
        cases opens
      | some first =>
        rw [last] at opens
        have recent : ¬ (now - first > l.window) := of_decide_eq_false opens
        have ordered := sound.order first last
        have zero : book.count = 0 := by
          rcases sound.absent found first last with zero | gone
          · exact zero
          · omega
        have next := sound.proceed later order account now (by omega)
          (le_refl _) (by omega) (fun earlier same => by
            cases last.symm.trans same
            omega) (by omega)
        rw [zero] at next
        simp only [Book.fail, last, opens]
        exact next
  | some st =>
    obtain ⟨last, count⟩ := sound.entry st found
    have ordered := sound.order st.first last
    simp only
    cases gone : l.elapsed now st with
    | true =>
      have late := (elapsed_iff l now st).mp gone
      have opens : (book.last.all fun first => decide (now - first > l.window)) = true := by
        rw [last]
        exact decide_eq_true late
      simp only [Book.fail, opens]
      apply sound.opened later order account wide positive
      intro first same
      cases last.symm.trans same
      exact late
    | false =>
      have live := mt (elapsed_iff l now st).mpr (ne_true_of_eq_false gone)
      have room := free st found
      have next := sound.proceed later order account st.first ordered.1 (by omega)
        (by omega) (fun earlier same => by
          cases last.symm.trans same
          exact le_refl _) (by omega)
      simp only [Book.fail, last]
      rw [count]
      exact next

omit later order

/-- What a live pair counts, in the period and before it. -/
theorem Sound.pair_split (later : book.now ≤ now) (member : normal account ∈ S) {pair st : State}
    (found : l.entries (pairKey normal ip account) = some pair) (entered : l.entries ip = some st)
    (live : now - pair.first ≤ l.window) :
    pair.count ≤ (tally (· == normal account)
        (fun time => pair.first ≤ time && time < book.start) book.unforgiven : Int) +
      tally (· == normal account) (fun time => book.start ≤ time) book.unforgiven ∧
    tally (· == normal account) (fun time => pair.first ≤ time && time < book.start)
        book.unforgiven ≤
      tally (· == normal account) (fun time => book.before ≤ time && time < book.start)
        book.unforgiven := by
  have held := (sound.pairs account pair member found).2.2
  have ordered := sound.order st.first (sound.entry st entered).1
  constructor
  · have cut := tally_cut (· == normal account) (fun time => pair.first ≤ time) book.start
      book.unforgiven
    have own : tally (· == normal account)
        (fun time => decide (pair.first ≤ time) && decide (book.start ≤ time)) book.unforgiven ≤
          tally (· == normal account) (fun time => book.start ≤ time) book.unforgiven := by
      apply tally_mono
      intro failure _ both
      rw [Bool.and_eq_true] at both
      exact both.2
    omega
  · -- failures of older periods are too old for a live pair
    apply tally_mono
    intro failure listed both
    simp only [Bool.and_eq_true, decide_eq_true_eq] at both ⊢
    refine ⟨?_, both.2⟩
    by_contra early
    have gap := sound.far failure (sound.among failure listed) (by omega)
    omega

/-- The accounts after a success that leaves the IP's count at `count`. -/
theorem Sound.forgive (entries : Bytes → Option State) (count : Int) (carried : Nat)
    (later : book.now ≤ now) (member : normal account ∈ S)
    (pairGone : entries (pairKey normal ip account) = none)
    (others : ∀ key, key ≠ ip → key ≠ pairKey normal ip account → entries key = l.entries key)
    (entry : ∀ st, entries ip = some st → book.last = some st.first ∧ st.count = count)
    (absent : entries ip = none → ∀ first, book.last = some first →
      count = 0 ∨ l.window < now - first) (limit : 0 ≤ count ∧ count ≤ l.max)
    (light : (carried : Int) ≤ l.max) (taken : book.count + book.carried ≤ count + carried +
      tally (· == normal account) (fun time => book.start ≤ time) book.unforgiven)
    (drawn : carried ≤ book.carried + tally (· == normal account)
      (fun time => book.before ≤ time && time < book.start) book.unforgiven) :
    Sound normal ip S { l with entries := entries }
      { book with
        now := now
        unforgiven := book.unforgiven.filter fun failure => failure.account ≠ normal account
        successes := normal account :: book.successes
        count := count
        carried := carried } := by
  have counts : inside S (normal account) = true := by simp [inside, member]
  have forgotten := fun span => tally_forget (inside S) span _ counts book.unforgiven
  refine { sound with
    entry := entry, absent := absent, limit := limit, idle := ?idle, order := ?order,
    pairs := ?pairs, among := ?among, past := ?past, balance := ?balance, brought := ?brought,
    light := ⟨light, sound.light.2⟩ }
  case idle => exact fun last => ⟨(sound.idle last).1, by simp [(sound.idle last).2]⟩
  case order => exact fun first last => (sound.order first last).imp_right (le_trans · later)
  case pairs =>
    intro other st listed (found : entries _ = _)
    by_cases same : pairKey normal ip other = pairKey normal ip account
    · rw [same, pairGone] at found
      cases found
    rw [others _ (pairKey_ne normal ip other) same] at found
    have held := sound.pairs other st listed found
    have apart : normal other ≠ normal account :=
      fun alike => same ((pairKey_inj normal ip other account).mpr alike)
    refine ⟨le_trans held.1 later, held.2.1, ?_⟩
    rw [tally_forget_other _ apart]
    exact held.2.2
  case among => exact fun failure kept => sound.among failure (List.mem_filter.mp kept).1
  case past => exact fun failure kept => le_trans (sound.past failure kept) later
  case balance =>
    have forgotten := forgotten fun time => book.start ≤ time
    have earlier := sound.balance
    dsimp only
    omega
  case brought =>
    have forgotten := forgotten fun time => book.before ≤ time && time < book.start
    have earlier := sound.brought
    dsimp only
    omega

theorem Sound.succeed (named : ip ≠ []) (later : book.now ≤ now) (member : normal account ∈ S)
    (light : (book.succeed (l.forgives normal ip now account) (normal account) now).carried ≤
      l.max) :
    Sound normal ip S (succeed normal l now ip account)
      (book.succeed (l.forgives normal ip now account) (normal account) now) := by
  have apart := pairKey_ne normal ip account
  rw [Limiter.forgives] at light ⊢
  rw [AuthLimit.succeed, if_neg named]
  cases found : l.entries (pairKey normal ip account) with
  | none =>
    exact sound.forgive l.entries book.count book.carried later member found (fun _ _ _ => rfl)
      sound.entry (sound.waits later) sound.limit sound.light.1 (by omega) (by omega)
  | some pair =>
    -- nothing is forgiven to the IP, only the pair goes
    have only : Sound normal ip S (l.put (pairKey normal ip account) none)
        (book.succeed none (normal account) now) := by
      refine sound.forgive (l.put (pairKey normal ip account) none).entries book.count
        book.carried later member (put_here _ _ _) (fun key _ other => put_other _ _ other) ?_ ?_
        sound.limit sound.light.1 (by omega) (by omega)
      · rw [put_other _ _ apart.symm]
        exact sound.entry
      · rw [put_other _ _ apart.symm]
        exact sound.waits later
    simp only [found] at light
    simp only
    rw [put_other _ _ apart.symm]
    cases entered : l.entries ip with
    | none =>
      split
      next => exact only
      next => exact only
    | some st =>
      simp only [entered] at light
      simp only
      cases gone : l.elapsed now pair with
      | true => exact only
      | false =>
        rw [gone] at light
        have live := mt (elapsed_iff l now pair).mpr (ne_true_of_eq_false gone)
        obtain ⟨last, count⟩ := sound.entry st entered
        obtain ⟨split, stale⟩ := sound.pair_split later member found entered (by omega)
        have nonneg := (sound.pairs account pair member found).2.1
        have limit := sound.limit
        simp only [Bool.false_eq_true, if_false, Book.succeed] at light ⊢
        rw [count]
        -- the pair goes and the IP is left with `entry`, which counts `left`
        have forgiven := fun (entry : Option State) (left : Int)
            (stored : ∀ st, entry = some st → book.last = some st.first ∧ st.count = left)
            (cleared : entry = none → left = 0) (range : 0 ≤ left ∧ left ≤ l.max)
            (rest : book.count - pair.count ≤ left) =>
          sound.forgive ((l.put (pairKey normal ip account) none).put ip entry).entries left _
            later member (by rw [put_other _ _ apart, put_here])
            (fun key notIP notPair => by rw [put_other _ _ notIP, put_other _ _ notPair])
            (by rw [put_here]; exact stored)
            (fun missing _ _ => .inl (cleared ((put_here _ _ _).symm.trans missing))) range light
            (by omega) (by omega)
        split
        next cleared => exact forgiven none 0 (by simp) (fun _ => rfl) (by omega) cleared
        next left =>
          refine forgiven (some ⟨book.count - pair.count, st.first⟩) _ ?_ (by simp) (by omega)
            (le_refl _)
          rintro entry ⟨⟩
          exact ⟨last, rfl⟩

end Balance

section Bound

variable (normal : Bytes → Bytes) (ip : Bytes)

theorem succeed_kept (l : Limiter) (now : Int) (account : Bytes) :
    (succeed normal l now ip account).max = l.max ∧
      (succeed normal l now ip account).window = l.window := by
  simp only [succeed]
  -- no branch touches the two limits
  repeat' split
  all_goals exact ⟨rfl, rfl⟩

theorem attempt_kept {run : Run} (a : Attempt) (named : ip ≠ []) (timely : Timely run a) :
    (attempt normal ip run a).limiter.max = run.limiter.max ∧
      (attempt normal ip run a).limiter.window = run.limiter.window := by
  obtain ⟨_, _, order⟩ := timely
  have dropped := blocked_dropped run.limiter a.checked ip
  rw [attempt]
  split
  next => exact ⟨dropped.max, dropped.window⟩
  next =>
    cases ending : a.ending with
    | fail pairNow now =>
      rw [ending] at order
      have kept := fail_dropped normal ip (blocked run.limiter a.checked ip).2 order named a.account
      exact ⟨kept.max.trans dropped.max, kept.window.trans dropped.window⟩
    | succeed now =>
      have kept := succeed_kept normal ip (blocked run.limiter a.checked ip).2 now a.account
      exact ⟨kept.1.trans dropped.max, kept.2.trans dropped.window⟩

variable {normal ip} in
theorem Sound.attempt {S : List Bytes} {run : Run}
    (sound : Sound normal ip S run.limiter run.book) (named : ip ≠ [])
    (wide : 0 ≤ run.limiter.window) (positive : 1 ≤ run.limiter.max) {a : Attempt}
    (timely : Timely run a) (light : Light normal ip run a)
    (known : ∀ account ∈ (attempt normal ip run a).book.successes, account ∈ S) :
    Sound normal ip S (attempt normal ip run a).limiter (attempt normal ip run a).book := by
  obtain ⟨later, begins, order⟩ := timely
  have dropped := blocked_dropped run.limiter a.checked ip
  have checked := sound.drop later dropped
  rw [← dropped.window] at wide
  rw [← dropped.max] at positive
  rw [Light, ← dropped.max] at light
  rw [AuthLimit.attempt] at light known ⊢
  cases answer : (blocked run.limiter a.checked ip).1 with
  | true =>
    exact checked
  | false =>
    simp only [answer] at light known ⊢
    cases ending : a.ending with
    | fail pairNow now =>
      rw [ending] at begins order
      have free : ∀ st, (blocked run.limiter a.checked ip).2.entries ip = some st →
          st.count < (blocked run.limiter a.checked ip).2.max := by
        intro st found
        rw [dropped.max]
        exact blocked_false named answer found
      have failed := checked.fail begins order a.account wide positive free
      exact failed.drop (le_refl now) (fail_dropped normal ip _ order named a.account)
    | succeed now =>
      rw [ending] at begins
      simp only [ending] at light known
      exact checked.succeed named begins (known _ List.mem_cons_self) light

theorem attempt_successes {run : Run} (a : Attempt) (member : account ∈ run.book.successes) :
    account ∈ (attempt normal ip run a).book.successes := by
  rw [attempt]
  split
  next => exact member
  next =>
    cases a.ending with
    | fail pairNow now => exact member
    | succeed now => exact List.mem_cons_of_mem _ member

theorem run_successes (run : Run) (attempts : List Attempt)
    (member : account ∈ run.book.successes) :
    account ∈ (Histories.run (attempt normal ip) run attempts).book.successes := by
  induction attempts generalizing run with
  | nil => exact member
  | cons a rest ih => exact ih _ (attempt_successes normal ip a member)

/-- Who has succeeded at some point has succeeded in the end. -/
theorem along_successes (run : Run) (attempts : List Attempt) :
    Along (attempt normal ip)
      (fun run' a => ∀ account ∈ (attempt normal ip run' a).book.successes,
        account ∈ (Histories.run (attempt normal ip) run attempts).book.successes)
      run attempts := by
  induction attempts generalizing run with
  | nil => trivial
  | cons a rest ih =>
    exact ⟨fun account member => run_successes normal ip _ rest member, ih _⟩

/-- In any window the failures on accounts that never succeed are at most three
times the limit, as long as no more than the limit is carried over into a
period. -/
theorem outside_failures_bounded {maxFailures window origin : Int} (positive : 1 ≤ maxFailures)
    (named : ip ≠ []) (attempts : List Attempt)
    (held : Along (attempt normal ip) (fun run a => Timely run a ∧ Light normal ip run a)
      (start maxFailures window origin) attempts) (t : Int) :
    (tally
      (outside (run (attempt normal ip) (start maxFailures window origin) attempts).book.successes)
      (fun time => t ≤ time && time < t + window)
      (run (attempt normal ip) (start maxFailures window origin) attempts).book.failures : Int) ≤
        3 * maxFailures := by
  by_cases wide : 0 ≤ window
  · have known := along_successes normal ip (start maxFailures window origin) attempts
    generalize (run (attempt normal ip) (start maxFailures window origin)
      attempts).book.successes = S at known ⊢
    have keeps : ∀ run a, (Sound normal ip S run.limiter run.book ∧ run.limiter.max = maxFailures ∧
          run.limiter.window = window) →
        ((Timely run a ∧ Light normal ip run a) ∧
          ∀ account ∈ (attempt normal ip run a).book.successes, account ∈ S) →
        Sound normal ip S (attempt normal ip run a).limiter (attempt normal ip run a).book ∧
          (attempt normal ip run a).limiter.max = maxFailures ∧
          (attempt normal ip run a).limiter.window = window := by
      rintro run a ⟨sound, max, width⟩ ⟨⟨timely, light⟩, listed⟩
      have kept := attempt_kept normal ip a named timely
      exact ⟨sound.attempt named (by omega) (by omega) timely light listed,
        kept.1.trans max, kept.2.trans width⟩
    have final := run_invariant keeps ⟨start_sound normal ip S window origin positive, rfl, rfl⟩
      (along_and held known)
    have bound := final.1.bound t
    rw [final.2.1, final.2.2] at bound
    exact bound
  · rw [tally_zero _ fun failure _ => by
      simp only [Bool.and_eq_false_iff, decide_eq_false_iff_not]
      omega]
    omega

/-! One IP, a limit of four and a window of ten. -/

def sampleIP : Bytes := ascii "192.0.2.1"

/-- The accounts are named by the letters from `a` on. -/
def fails (now : Int) (account : UInt8) : Attempt := ⟨[97 + account], now, .fail now now⟩

def succeeds (now : Int) (account : UInt8) : Attempt := ⟨[97 + account], now, .succeed now⟩

/-- Two typing errors of account 1, some guesses at account 0, and the guesses
that a success leaves. -/
def carryOnce : List Attempt :=
  [fails 0 0, fails 9 1, fails 9 1, fails 11 0, fails 11 0, fails 11 0, succeeds 12 1,
    fails 12 0, fails 13 0, fails 14 0]

theorem outside_failures_bounded_carryOnce :
    Along (attempt lower sampleIP) (fun run a => Timely run a ∧ Light lower sampleIP run a)
        (start 4 10 0) carryOnce ∧
      (tally (outside (run (attempt lower sampleIP) (start 4 10 0) carryOnce).book.successes)
        (fun time => (11 : Int) ≤ time && time < 11 + 10)
        (run (attempt lower sampleIP) (start 4 10 0) carryOnce).book.failures : Int) ≤ 3 * 4 := by
  have held : Along (attempt lower sampleIP)
      (fun run a => Timely run a ∧ Light lower sampleIP run a) (start 4 10 0) carryOnce := by
    decide
  exact ⟨held, outside_failures_bounded lower sampleIP (by decide) (by decide) carryOnce held 11⟩

/-- An own account fails anew and an older one of the pairs is forgiven for it. -/
def refresh (now : Int) (pairs : List (UInt8 × UInt8)) : List Attempt :=
  pairs.flatMap fun pair => [fails now pair.1, succeeds now pair.2]

/-- In each of three periods a guess at account 0 keeps the IP's entry, and three
more failures on own accounts are saved up; the fourth spends them all. -/
def saveUp : List Attempt :=
  [fails 0 0, fails 9 1, fails 9 2, fails 9 3, fails 11 0] ++
    refresh 19 [(4, 1), (5, 2), (6, 3)] ++ [fails 19 7, fails 19 8, fails 19 9, fails 22 0] ++
    refresh 29 [(10, 4), (11, 5), (12, 6), (13, 7), (14, 8), (15, 9)] ++
    [fails 29 16, fails 29 17, fails 29 18, fails 33 0, fails 33 0, fails 33 0] ++
    ([10, 11, 12, 13, 14, 15, 16, 17, 18].flatMap fun own => [succeeds 33 own, fails 33 0]) ++
    [fails 33 0]

/-- Thirteen guesses at one moment, with a limit of four. -/
theorem saved_failures_spent_at_once :
    Along (attempt lower sampleIP) Timely (start 4 10 0) saveUp ∧
      ¬ (tally (outside (run (attempt lower sampleIP) (start 4 10 0) saveUp).book.successes)
        (fun time => (33 : Int) ≤ time && time < 33 + 10)
        (run (attempt lower sampleIP) (start 4 10 0) saveUp).book.failures : Int) ≤ 3 * 4 := by
  decide

end Bound

end Bongo.AuthLimit
