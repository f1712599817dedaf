import Bongo.SendAs
import Bongo.Profiles

/-!
What send-as claims reveal and what they give. A machine of the user alone, which knows
of no other account, alias or record, makes the same replies as the real one as long as no
right code is submitted; so two runs that differ in what others hold answer alike. A right
code gives the address only if nobody held it at the look-up.
-/

namespace Bongo.SendAs

open ByteKeys KeyValue Histories Runes

variable {Limiter : Type} (site : Site Limiter)

structure Desk (Limiter : Type) where
  view : View
  mine : Mine Limiter
  log : List Reply

def deskOf (world : World Limiter) : Desk Limiter := ⟨viewOf site world, world.mine, world.log⟩

def Desk.answer (desk : Desk Limiter) (mine : Mine Limiter) (reply : Reply) : Desk Limiter :=
  { desk with mine := mine, log := desk.log ++ [reply] }

def checkable (view : View) (address : Bytes) : Bool :=
  site.pebble && (view.hosted (domainOf address) || site.metadata && site.applier)

/-- A mail leaves the queue, and nothing else tells whether it was sent. -/
def deskSend (desk : Desk Limiter) (job : VerifyJob) (rest : List VerifyJob) : Desk Limiter :=
  let taken := { desk.mine with jobs := rest }
  if checkable site desk.view job.address then { desk with mine := taken }
  else { desk with mine := resetClaim site taken job.address }

def deskStep (desk : Desk Limiter) : Event → Desk Limiter
  | .show flash error now =>
    desk.answer desk.mine (showAddresses site desk.view desk.mine flash error now)
  | .add form =>
    let result := addSendAsAddress site desk.view desk.mine form
    desk.answer result.1 result.2
  | .request param now rawCode =>
    let result := requestVerification site desk.view desk.mine true param now rawCode
    desk.answer result.1 result.2
  | .submit param form now =>
    match submitCode site desk.view desk.mine param form now with
    | .answered mine reply => desk.answer mine reply
    | .correct _ _ => desk
  | .send _ _ =>
    match desk.mine.jobs with
    | [] => desk
    | job :: rest => deskSend site desk job rest
  | .host domain hosted =>
    { desk with
      view.hosted := fun name =>
        if domain = keyOf site name then hosted else desk.view.hosted name }
  | .running on => { desk with view.running := on }
  | .write _ | .change _ => desk

/-- A change that is not the user's doing. -/
def Event.own : Event → Bool
  | .change _ => false
  | _ => true

theorem deskStep_change (desk : Desk Limiter) (event : Event) (foreign : event.own = false) :
    deskStep site desk event = desk := by
  cases event with
  | change change => rfl
  | _ => cases foreign

/-- The form has the code of a challenge that has not expired. -/
def liveCode (world : World Limiter) (param : Bytes) (form : Option Bytes) (now : Int) : Prop :=
  ∃ text ∈ form, ∃ challenge ∈ getClaim site world.mine (normalise site param),
    challenge.codeHash ≠ [] ∧ now ≤ challenge.expiresAt ∧
      site.hash (trimSpace text) = challenge.codeHash

instance (world : World Limiter) (param : Bytes) (form : Option Bytes) (now : Int) :
    Decidable (liveCode site world param form now) := by
  unfold liveCode
  infer_instance

def isMine (stored : Option AddressRecord) : Bool :=
  stored.any fun record => record.userId = site.user

def Change.spares (world : World Limiter) : Change → Bool
  | .record address stored => !isMine site (get world.records address) && !isMine site stored
  | .row address stored => !isMine site (get world.rows address) && !isMine site stored
  | _ => true

/-- Reads and writes succeed, the queue has room, nobody changes what is the user's, and the
user submits no code of a live challenge. -/
def Quiet (world : World Limiter) : Event → Prop
  | .submit param form now => ¬ liveCode site world param form now
  | .request _ _ _ => room world = true
  | .send checkFails mailFails => checkFails = false ∧ mailFails = false
  | .change change => change.spares site world = true
  | _ => True

instance (world : World Limiter) (event : Event) : Decidable (Quiet site world event) := by
  cases event <;> unfold Quiet <;> infer_instance

variable {address : Bytes}

theorem submitCode_correct {world : World Limiter} {param : Bytes} {form : Option Bytes} {now : Int}
    {record : AddressRecord}
    (right : submitCode site (viewOf site world) world.mine param form now =
      .correct address record) :
    liveCode site world param form now ∧ address = normalise site param := by
  unfold submitCode at right
  split at right
  case isTrue => cases right
  case isFalse =>
    cases form with
    | none => cases right
    | some text =>
      simp only at right
      split at right
      case isTrue => cases right
      case isFalse =>
        split at right
        case h_1 => split at right <;> cases right
        case h_2 challenge found =>
          split at right
          case isTrue => cases right
          case isFalse coded =>
            split at right
            case isTrue => cases right
            case isFalse fresh =>
              split at right
              case isTrue => cases right
              case isFalse =>
                split at right
                case isTrue => cases right
                case isFalse matched =>
                  cases right
                  exact ⟨⟨text, rfl, challenge, found, coded, not_lt.mp fresh,
                    not_not.mp matched⟩, rfl⟩

theorem addressUnavailable_isSome (world : World Limiter) (address : Bytes) :
    (addressUnavailable site world address).isSome =
      checkable site (viewOf site world) address := by
  simp only [addressUnavailable, checkable, viewOf]
  cases site.pebble <;> cases domainHosted site world.domains (domainOf address) <;>
    cases site.metadata <;> cases site.applier <;> rfl

theorem get_owned (entries : Store AddressRecord) (key : Bytes) :
    get (owned site entries) key =
      (get entries key).filter fun record => record.userId = site.user := by
  unfold KeyValue.get owned
  rw [Std.ExtTreeMap.getElem?_filter, Option.pfilter_eq_filter]

theorem get_put {V : Type} (entries : Store V) (key other : Bytes) (stored : Option V) :
    get (put entries key stored) other = if key = other then stored else get entries other := by
  cases stored with
  | none => exact get_delete entries key other
  | some value => exact get_set entries key other value

theorem filter_of_not_mine {stored : Option AddressRecord} (foreign : isMine site stored = false) :
    stored.filter (fun record => record.userId = site.user) = none := by
  cases stored with
  | none => rfl
  | some record => simpa [isMine, Option.filter] using foreign

theorem owned_put {entries : Store AddressRecord} {key : Bytes} {stored : Option AddressRecord}
    (before : isMine site (get entries key) = false) (after : isMine site stored = false) :
    owned site (put entries key stored) = owned site entries := by
  apply store_ext
  intro other
  rw [get_owned, get_owned, get_put]
  split
  case isTrue same =>
    subst same
    rw [filter_of_not_mine site before, filter_of_not_mine site after]
  case isFalse => rfl

theorem ownRecord_owned (records : Store AddressRecord) :
    ownRecord site records = fun address => get (owned site records) (keyOf site address) := by
  funext address
  rw [get_owned, ownRecord]

section

variable (world : World Limiter)
include world

theorem deskOf_change {change : Change} (spared : change.spares site world = true) :
    deskOf site (change.apply world) = deskOf site world := by
  cases change with
  | record address stored =>
    obtain ⟨before, after⟩ : isMine site (get world.records address) = false ∧
        isMine site stored = false := by simpa [Change.spares] using spared
    simp [deskOf, viewOf, Change.apply, ownRecord_owned, owned_put site before after]
  | row address stored =>
    obtain ⟨before, after⟩ : isMine site (get world.rows address) = false ∧
        isMine site stored = false := by simpa [Change.spares] using spared
    simp [deskOf, viewOf, Change.apply, listByUser, owned_put site before after]
  | _ => rfl

theorem deskOf_host (domain : Bytes) (hosted : Bool) :
    domainHosted site (flag world.domains domain hosted) = fun name =>
      if domain = keyOf site name then hosted else domainHosted site world.domains name := by
  funext name
  rw [domainHosted, flag, get_put]
  split
  case isTrue => cases hosted <;> rfl
  case isFalse => rfl

theorem deskOf_send (job : VerifyJob) (rest : List VerifyJob) :
    deskOf site (sendVerification site world job rest false false) =
      deskSend site (deskOf site world) job rest := by
  have able := addressUnavailable_isSome site world job.address
  unfold sendVerification deskSend
  cases checked : addressUnavailable site world job.address with
  | none =>
    rw [checked] at able
    simp [deskOf, ← able]
    rfl
  | some unavailable =>
    rw [checked] at able
    cases unavailable <;> simp [deskOf, ← able] <;> rfl

theorem deskOf_step (event : Event) (admitted : Quiet site world event ∧ world.pending = ∅) :
    deskOf site (step site world event) = deskStep site (deskOf site world) event := by
  obtain ⟨quiet, idle⟩ := admitted
  cases event with
  | request param now rawCode =>
    have free : room world = true := quiet
    simp only [step, free]
    rfl
  | submit param form now =>
    simp only [step, deskStep, deskOf]
    cases served : submitCode site (viewOf site world) world.mine param form now with
    | answered mine reply => rfl
    | correct address record =>
      -- The one reply that could depend on others: a right code, which is not quiet.
      exact absurd (submitCode_correct site served).1 quiet
  | write address => simp [step, idle, deskStep]
  | send checkFails mailFails =>
    obtain ⟨rfl, rfl⟩ := quiet
    simp only [step, deskStep]
    cases waiting : world.mine.jobs with
    | nil => simp [deskOf, waiting]
    | cons job rest =>
      simp only [deskOf_send]
      simp [deskOf, waiting]
  | host domain hosted =>
    simp [step, deskStep, deskOf, viewOf, deskOf_host]
  | change change => exact deskOf_change site world quiet
  | «show» flash error now => rfl
  | add form => rfl
  | running on => rfl

theorem pending_step (event : Event) (idle : world.pending = ∅) (quiet : Quiet site world event) :
    (step site world event).pending = ∅ := by
  cases event with
  | submit param form now =>
    simp only [step]
    cases served : submitCode site (viewOf site world) world.mine param form now with
    | answered mine reply => exact idle
    | correct address record =>
      exact absurd (submitCode_correct site served).1 quiet
  | write address => simp [step, idle]
  | send checkFails mailFails =>
    simp only [step, sendVerification]
    repeat' split
    all_goals exact idle
  | change change => cases change <;> exact idle
  | _ => exact idle

/-- Along a quiet run the user sees what the machine of the user alone shows. -/
theorem deskOf_run {events : List Event} (idle : world.pending = ∅)
    (quiet : Along (step site) (Quiet site) world events) :
    deskOf site (run (step site) world events) =
      run (deskStep site) (deskOf site world) (events.filter Event.own) := by
  have kept : Along (step site) (fun world event => Quiet site world event ∧ world.pending = ∅)
      world events :=
    along_strengthen (pending_step site) (fun world event idle quiet => ⟨quiet, idle⟩) idle quiet
  rw [run_filter (deskStep site) Event.own (deskStep_change site)]
  exact run_simulates (deskStep site) (deskOf site) (deskOf_step site) kept

end

/-- Another account, an alias, or another user's record or row has the address. -/
def Held (world : World Limiter) (address : Bytes) : Prop :=
  (∃ row ∈ world.users, row.id ≠ site.user ∧ keyOf site row.username = address) ∨
    (∃ row ∈ world.aliases, row.targetUserId ≠ site.user ∧ keyOf site row.address = address) ∨
    (get world.aliasKeys address).isSome ∨
    (∃ record ∈ get world.records address, record.userId ≠ site.user) ∨
    (∃ row ∈ get world.rows address, row.userId ≠ site.user)

instance (world : World Limiter) (address : Bytes) : Decidable (Held site world address) := by
  unfold Held
  infer_instance

def Folded (world : World Limiter) (address : Bytes) : Prop :=
  (∀ row ∈ world.users, keyOf site row.username = address → sqliteLower row.username = address) ∧
    ∀ row ∈ world.aliases, keyOf site row.address = address → sqliteLower row.address = address

instance (world : World Limiter) (address : Bytes) : Decidable (Folded site world address) := by
  unfold Folded
  infer_instance

/-- Nobody takes an address between its look-up and the write of its record. -/
def Undisturbed (world : World Limiter) : Event → Prop
  | .submit param _ _ => Folded site world (normalise site param)
  | .change change => ∀ address ∈ world.pending.keys, ¬ Held site (change.apply world) address
  | _ => True

instance (world : World Limiter) (event : Event) : Decidable (Undisturbed site world event) := by
  cases event <;> unfold Undisturbed <;> infer_instance

def verifiedFor (world : World Limiter) (address : Bytes) : Bool :=
  (get world.records address).any fun record => record.userId = site.user && record.verified

/-- The event is not somebody else's doing, and the user has a verified record only after
it. -/
def Obtains (world : World Limiter) (event : Event) (address : Bytes) : Prop :=
  event.own = true ∧ verifiedFor site world address = false ∧
    verifiedFor site (step site world event) address = true

instance (world : World Limiter) (event : Event) (address : Bytes) :
    Decidable (Obtains site world event address) := by
  unfold Obtains
  infer_instance

theorem keyOf_normalise (text : Bytes) :
    keyOf site (normalise site text) = normalise site text :=
  lowerText_idem site.table site.settled site.unreadable (trimSpace text)

/-- The look-up misses nobody whose name SQLite folds like the address. -/
theorem free_of_available {world : World Limiter} {address : Bytes}
    (folded : Folded site world address)
    (available : addressUnavailable site world address = some false) :
    ¬ Held site world address := by
  have free : addressTaken site world address = false := by
    unfold addressUnavailable at available
    split at available
    case isTrue => cases available
    case isFalse =>
      split at available
      case isTrue => cases available
      case isFalse =>
        split at available
        case isTrue => cases available
        case isFalse => exact Option.some.inj available
  simp only [addressTaken, Bool.or_eq_false_iff] at free
  obtain ⟨⟨⟨⟨accounts, rows⟩, aliases⟩, records⟩, keys⟩ := free
  rintro (⟨row, listed, -, same⟩ | ⟨row, listed, other, same⟩ | present | ⟨record, found, other⟩ |
    ⟨row, found, other⟩)
  · have missed := List.any_eq_false.mp accounts row listed
    exact missed (decide_eq_true (folded.1 row listed same))
  · have missed := List.any_eq_false.mp aliases row listed
    simp [folded.2 row listed same, other] at missed
  · rw [keys] at present
    cases present
  · rw [found] at records
    simp [other] at records
  · rw [found] at rows
    simp [other] at rows

def Checked (world : World Limiter) : Prop :=
  ∀ address ∈ world.pending.keys, keyOf site address = address ∧ ¬ Held site world address

theorem mem_keys (entries : Store AddressRecord) (key : Bytes) :
    key ∈ entries.keys ↔ (get entries key).isSome := by
  rw [Std.ExtTreeMap.mem_keys, KeyValue.get, Std.ExtTreeMap.isSome_getElem?_iff_mem]

variable {world : World Limiter}

theorem Checked.allocate (checked : Checked site world) (record : AddressRecord)
    (key : keyOf site address = address) (folded : Folded site world address) :
    Checked site (allocate site world address record) := by
  unfold SendAs.allocate
  split
  case isTrue => exact checked
  case isFalse =>
    cases available : addressUnavailable site world address with
    | none => exact checked
    | some unavailable =>
      cases unavailable with
      | true => exact checked
      | false =>
        -- The new entry is free by the look-up, the others were so before.
        have free := free_of_available site folded available
        intro other waits
        rw [mem_keys, get_set] at waits
        split at waits
        case isTrue same =>
          subst same
          exact ⟨key, free⟩
        case isFalse => exact checked other ((mem_keys _ _).mpr waits)

/-- What is written for one address is not another's. -/
theorem Checked.writeRecord (checked : Checked site world) (record : AddressRecord)
    (waiting : address ∈ world.pending.keys) :
    Checked site (writeRecord site world address record) := by
  have key := (checked address waiting).1
  intro other waits
  simp only [SendAs.writeRecord] at waits
  rw [mem_keys, get_delete] at waits
  split at waits
  case isTrue => cases waits
  case isFalse different =>
    obtain ⟨settled, free⟩ := checked other ((mem_keys _ _).mpr waits)
    refine ⟨settled, ?_⟩
    have records : get (set world.records address
        { record with domain := keyOf site record.domain }) other = get world.records other := by
      rw [get_set, if_neg different]
    have rows : get (if site.system then set world.rows address
        { record with domain := keyOf site record.domain } else world.rows) other =
          get world.rows other := by
      split
      case isTrue => rw [get_set, if_neg different]
      case isFalse => rfl
    unfold Held SendAs.writeRecord
    rw [key, records, rows]
    exact free

theorem Checked.step {event : Event} (checked : Checked site world)
    (undisturbed : Undisturbed site world event) : Checked site (step site world event) := by
  cases event with
  | submit param form now =>
    simp only [SendAs.step]
    cases served : submitCode site (viewOf site world) world.mine param form now with
    | answered mine reply => exact checked
    | correct address record =>
      have same := (submitCode_correct site served).2
      subst same
      exact checked.allocate site record (keyOf_normalise site param) undisturbed
  | write address =>
    simp only [SendAs.step]
    cases found : get world.pending address with
    | none => exact checked
    | some record =>
      exact checked.writeRecord site record ((mem_keys _ _).mpr (by rw [found]; rfl))
  | send checkFails mailFails =>
    simp only [SendAs.step, sendVerification]
    repeat' split
    all_goals exact checked
  | change change =>
    intro address waits
    have same : (change.apply world).pending = world.pending := by cases change <;> rfl
    have before : address ∈ world.pending.keys := same ▸ waits
    exact ⟨(checked address before).1, undisturbed address before⟩
  | «show» flash error now | add form | request param now rawCode | host domain hosted =>
    exact checked
  | running on => exact checked

/-- Only the write of a checked record gives the user a verified one. -/
theorem obtains_write {world : World Limiter} {event : Event} {key : Bytes}
    (obtained : Obtains site world event key) :
    ∃ address ∈ world.pending.keys, event = .write address ∧ keyOf site address = key := by
  obtain ⟨own, before, after⟩ := obtained
  -- An event that leaves the records alone gives nothing.
  have kept : ∀ {next : World Limiter}, SendAs.step site world event = next →
      next.records = world.records → False := by
    intro next reached same
    rw [reached, verifiedFor, same] at after
    exact absurd after (by rw [← verifiedFor, before]; simp)
  cases event with
  | write address =>
    cases found : get world.pending address with
    | none => exact (kept (by simp only [SendAs.step, found]) rfl).elim
    | some record =>
      refine ⟨address, (mem_keys _ _).mpr (by rw [found]; rfl), rfl, ?_⟩
      by_contra different
      simp only [SendAs.step, found, SendAs.writeRecord, verifiedFor, get_set,
        if_neg different] at after
      exact absurd after (by rw [← verifiedFor, before]; simp)
  | submit param form now =>
    refine (kept rfl ?_).elim
    simp only [SendAs.step, SendAs.allocate]
    repeat' split
    all_goals rfl
  | send checkFails mailFails =>
    refine (kept rfl ?_).elim
    simp only [SendAs.step, sendVerification]
    repeat' split
    all_goals rfl
  | change change => cases own
  | «show» flash error now | add form | request param now rawCode | host domain hosted =>
    exact (kept rfl rfl).elim
  | running on => exact (kept rfl rfl).elim

/-- An address comes to wait for its write by a submission that looks it up and finds it free. -/
theorem pending_after {event : Event} {address : Bytes}
    (waits : address ∈ (step site world event).pending.keys) :
    address ∈ world.pending.keys ∨ ∃ param form now, event = .submit param form now ∧
      keyOf site address = address ∧ addressUnavailable site world address = some false := by
  cases event with
  | submit param form now =>
    simp only [SendAs.step] at waits
    cases served : submitCode site (viewOf site world) world.mine param form now with
    | answered mine reply => exact .inl (by rw [served] at waits; exact waits)
    | correct claimed record =>
      have same := (submitCode_correct site served).2
      subst same
      simp only [served, SendAs.allocate] at waits
      split at waits
      · exact .inl waits
      split at waits
      · exact .inl waits
      · exact .inl waits
      rename_i free
      rw [mem_keys, get_set] at waits
      split at waits
      case isTrue same =>
        subst same
        exact .inr ⟨param, form, now, rfl, keyOf_normalise site param, free⟩
      case isFalse => exact .inl ((mem_keys _ _).mpr waits)
  | write written =>
    refine .inl ?_
    simp only [SendAs.step] at waits
    split at waits
    · exact waits
    simp only [SendAs.writeRecord] at waits
    rw [mem_keys, get_delete] at waits
    split at waits
    case isTrue => cases waits
    case isFalse => exact (mem_keys _ _).mpr waits
  | send checkFails mailFails =>
    refine .inl ?_
    simp only [SendAs.step, sendVerification] at waits
    repeat' split at waits
    all_goals exact waits
  | change change => cases change <;> exact .inl waits
  | _ => exact .inl waits

/-- An earlier submission looked the address up and found it free. -/
def LookedUp (world : World Limiter) (events : List Event) (address : Bytes) : Prop :=
  ∃ first param form now rest, events = first ++ .submit param form now :: rest ∧
    addressUnavailable site (run (step site) world first) address = some false

theorem lookedUp_of_pending (idle : world.pending = ∅) (events : List Event) {address : Bytes}
    (waits : address ∈ (run (step site) world events).pending.keys) :
    keyOf site address = address ∧ LookedUp site world events address := by
  induction events using List.reverseRecOn with
  | nil =>
    rw [run_nil, mem_keys, idle, get_empty] at waits
    cases waits
  | append_singleton before event ih =>
    rw [run_append, run_cons, run_nil] at waits
    rcases pending_after site waits with earlier | ⟨param, form, now, rfl, key, free⟩
    · obtain ⟨key, first, param, form, now, rest, rfl, free⟩ := ih earlier
      exact ⟨key, first, param, form, now, rest ++ [event], by simp, free⟩
    · exact ⟨key, before, param, form, now, [], rfl, free⟩

def sampleSite : Site Unit where
  user := ascii "u1"
  email := ascii "ann@example.org"
  addresses := true
  system := true
  verifyStore := true
  pebble := true
  metadata := true
  applier := true
  outbound := true
  table := Profiles.plainTable
  settled rune := by
    simp only [Profiles.plainTable, asciiFolds]
    repeat' split
    all_goals omega
  unreadable := rfl
  hash code := 1 :: code
  allow := fun _ _ => (true, ())

def sampleWorld : World Unit where
  mine := ⟨∅, (), []⟩
  domains := ∅
  records := ∅
  rows := ∅
  users := []
  aliases := []
  aliasKeys := ∅
  queued := 0
  running := true
  pending := ∅
  sent := []
  log := []

def sampleAddress : Bytes := ascii "a@b.c"

def bobRow : UserRow := ⟨ascii "u2", ascii "A@b.c"⟩

def claiming (address : Bytes) : List Event :=
  [.add (some address), .request address 100 (ascii "code"), .send false false]

def verifying (address : Bytes) : List Event :=
  claiming address ++ [.submit address (some (ascii "code")) 110]

def guessing : List Event :=
  claiming sampleAddress ++ [.submit sampleAddress (some (ascii "no")) 110, .show [] [] 120]

/-- A table that knows one capital letter outside ASCII. -/
def umlautSite : Site Unit :=
  { sampleSite with
    table :=
      { toLower := fun rune => if rune = 0xC4 then 0xE4 else Profiles.plainTable.toLower rune
        ascii := fun byte small => by
          have below : byte.toNat < 128 := UInt8.lt_iff_toNat_lt.mp small
          rw [if_neg (by omega)]
          exact Profiles.plainTable.ascii byte small
        visible := fun rune same => by
          split at same
          · cases same
          · exact Profiles.plainTable.visible rune same }
    settled := by
      intro rune
      simp only [Profiles.plainTable, asciiFolds]
      repeat' split
      all_goals omega
    unreadable := rfl }

/-- The address begins with the small letter and the account's name with the capital one. -/
def umlautAddress : Bytes := [0xC3, 0xA4] ++ ascii "@b.c"

def umlautWorld : World Unit :=
  { sampleWorld with users := [⟨ascii "u2", [0xC3, 0x84] ++ ascii "@b.c"⟩] }

end Bongo.SendAs
