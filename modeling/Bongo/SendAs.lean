import Bongo.Histories
import Bongo.KeyValue
import Bongo.Runes

/-!
Send-as claims of one user. The user claims an address, asks for a code that is mailed to it
and submits the code; only then is an address record written. Whether somebody else
already holds the address is looked up twice, by the background sender before it mails the code
and before the record is written, and never on the way to another reply.

The first half is the handlers over what they read. The second half puts them beside
everybody else's accounts, aliases and records, where a right code takes two steps, the
look-up and the write, and anything can come between them.
-/

namespace Bongo.SendAs

open ByteKeys KeyValue Histories Runes

/-- A claim for which no code was requested has an empty hash. -/
structure AddressVerification where
  codeHash : Bytes
  expiresAt : Int
  attempts : Int32
  deriving DecidableEq

def bareClaim : AddressVerification := ⟨[], 0, 0⟩

structure AddressRecord where
  userId : Bytes
  domain : Bytes
  kind : Bytes
  canSend : Bool
  verified : Bool
  deriving DecidableEq

structure UserRow where
  id : Bytes
  username : Bytes
  deriving DecidableEq

structure AliasRow where
  address : Bytes
  targetUserId : Bytes
  deriving DecidableEq

structure VerifyJob where
  address : Bytes
  rawCode : Bytes
  senderDomain : Bytes
  deriving DecidableEq

structure UserAddressInfo where
  address : Bytes
  canSend : Bool
  verified : Bool
  pendingVerification : Bool
  deriving DecidableEq

/-- Errors and flashes are redirects to the address page; the texts of `error` that start
with `settings.` are looked up in the reader's language. -/
inductive Reply where
  | status (code : Nat) (message : Bytes)
  | flash (key : Bytes)
  | error (text : Bytes)
  | page (rows : List UserAddressInfo) (email flash error : Bytes)
  deriving DecidableEq

/-- The user, the stores this node has, and what the handlers call on. A node without a
limiter allows everything. -/
structure Site (Limiter : Type) where
  user : Bytes
  email : Bytes
  addresses : Bool
  /-- The address store writes and lists the rows of the index. -/
  system : Bool
  verifyStore : Bool
  pebble : Bool
  metadata : Bool
  applier : Bool
  outbound : Bool
  table : CaseTable
  settled : ∀ rune, table.toLower (table.toLower rune) = table.toLower rune
  unreadable : table.toLower runeError = runeError
  hash : Bytes → Bytes
  allow : Limiter → Int → Bool × Limiter

def verifyCodeExpiry : Int := 25 * 60

def maxVerifyAttempts : Int32 := 5

def maxPendingSendAsClaims : Nat := 20

def verifyQueueSize : Nat := 64

variable {Limiter : Type} (site : Site Limiter)

section Handlers

/-- The claims of the user by address, the limiter, and the user's mails that wait for the
sender. -/
structure Mine (Limiter : Type) where
  claims : Store AddressVerification
  limiter : Limiter
  jobs : List VerifyJob

/-- What a request reads besides: the hosted domains, the records that are the user's, the
addresses listed for the user, and whether the sender runs. -/
structure View where
  hosted : Bytes → Bool
  ownRecord : Bytes → Option AddressRecord
  listed : List Bytes
  running : Bool

variable (view : View) (mine : Mine Limiter)

def normalise (text : Bytes) : Bytes := site.table.lowerText (trimSpace text)

/-- The text after the last `@`, all of it if there is none. -/
def domainOf (address : Bytes) : Bytes := (address.reverse.takeWhile (· ≠ 64)).reverse

def domainFromEmail (email : Bytes) : Bytes :=
  if email.contains 64 then domainOf email else ascii "localhost"

/-- Something stands before the last `@`, and something after it. -/
def wellFormed (address : Bytes) : Bool :=
  address.contains 64 && (domainOf address).length + 1 < address.length && domainOf address ≠ []

/-- The keys of both stores are lower-cased once more. -/
def keyOf (address : Bytes) : Bytes := site.table.lowerText address

def getClaim (address : Bytes) : Option AddressVerification :=
  get mine.claims (keyOf site address)

def putClaim (address : Bytes) (claim : AddressVerification) : Mine Limiter :=
  { mine with claims := set mine.claims (keyOf site address) claim }

def deleteClaim (address : Bytes) : Mine Limiter :=
  { mine with claims := delete mine.claims (keyOf site address) }

def resetClaim (address : Bytes) : Mine Limiter := putClaim site mine address bareClaim

def serverError (message : String) : Reply := .status 500 (ascii message)

def refusal (text : String) : Reply := .error (ascii text)

/-- A code was sent and has not expired. -/
def pendingVerification (address : Bytes) (now : Int) : Bool :=
  (getClaim site mine address).any fun claim => now < claim.expiresAt

def showAddresses (flash error : Bytes) (now : Int) : Reply :=
  if !site.addresses then .page [] site.email flash error
  else
    let claims := if site.verifyStore then mine.claims.keys else []
    let sorted := (view.listed ++ claims).mergeSort fun left right => decide (left ≤ right)
    let rows := (sorted.destutter (· ≠ ·)).map fun address =>
      { address := address
        canSend := (view.ownRecord address).any AddressRecord.canSend
        verified := (view.ownRecord address).any AddressRecord.verified
        pendingVerification := site.verifyStore && pendingVerification site mine address now }
    .page rows site.email flash error

def verifiedOwn (address : Bytes) : Bool := (view.ownRecord address).any AddressRecord.verified

/-- A stale claim of an address that is verified already is not counted. -/
def pendingClaimCount : Nat :=
  let claims := mine.claims.keys
  if claims.length < maxPendingSendAsClaims then claims.length
  else (claims.filter fun address => !verifiedOwn view address).length

def sendAsAddRedirect : Reply := .flash (ascii "send-as-requested")

def addSendAsAddress (form : Option Bytes) : Mine Limiter × Reply :=
  if !site.addresses || !site.verifyStore then (mine, serverError "address store not available")
  else match form with
    | none => (mine, .status 400 (ascii "invalid form"))
    | some text =>
      let address := normalise site text
      if address = [] then (mine, refusal "Address is required")
      else if !wellFormed address then (mine, refusal "Invalid email address")
      else if !site.pebble then (mine, serverError "failed to look up address")
      else if view.hosted (domainOf address) then (mine, sendAsAddRedirect)
      else if verifiedOwn view address then (mine, sendAsAddRedirect)
      else if (getClaim site mine address).isSome then (mine, sendAsAddRedirect)
      else if maxPendingSendAsClaims ≤ pendingClaimCount view mine then
        (mine, refusal "settings.sendAsTooManyPending")
      else (putClaim site mine address bareClaim, sendAsAddRedirect)

/-- The challenge is stored whoever holds the address. Without room in the queue the mail is
dropped and the claim is bare again. -/
def issueCode (room : Bool) (address : Bytes) (now : Int) (rawCode : Bytes) : Mine Limiter :=
  let challenged := putClaim site mine address ⟨site.hash rawCode, now + verifyCodeExpiry, 0⟩
  let job := ⟨address, rawCode, domainFromEmail site.email⟩
  if room then { challenged with jobs := challenged.jobs ++ [job] }
  else resetClaim site challenged address

def requestVerification (room : Bool) (param : Bytes) (now : Int) (rawCode : Bytes) :
    Mine Limiter × Reply :=
  let address := normalise site param
  if !site.addresses || !site.verifyStore then (mine, serverError "address store not available")
  else if !site.pebble || !site.metadata || !site.applier then
    (mine, serverError "address ownership check not available")
  else if !site.outbound then
    (mine, serverError "outbound delivery not configured on this node")
  else if !view.running then (mine, serverError "verification sender not running")
  else if (view.ownRecord address).any fun record => record.canSend && record.verified then
    (mine, .flash (ascii "address-already-verified"))
  else if (getClaim site mine address).isNone && (view.ownRecord address).isNone then
    (mine, refusal "Address not found")
  else if pendingVerification site mine address now then
    (mine, refusal "A verification code has already been sent to this address")
  else
    let answer := site.allow mine.limiter now
    let counted := { mine with limiter := answer.2 }
    if !answer.1 then (counted, refusal "Too many verification requests, try again later")
    else (issueCode site counted room address now rawCode, .flash (ascii "verification-code-sent"))

/-- A submitted code is answered, or it is the right one and the address has to be looked
up. -/
inductive Submission (Limiter : Type) where
  | answered (mine : Mine Limiter) (reply : Reply)
  | correct (address : Bytes) (record : AddressRecord)

def verifiedRecord (address : Bytes) : AddressRecord :=
  let record := (view.ownRecord address).getD
    ⟨site.user, domainOf address, ascii "identity", false, false⟩
  { record with canSend := true, verified := true }

def submitCode (param : Bytes) (form : Option Bytes) (now : Int) : Submission Limiter :=
  let address := normalise site param
  if !site.addresses || !site.verifyStore then
    .answered mine (serverError "address store not available")
  else match form with
    | none => .answered mine (.status 400 (ascii "invalid form"))
    | some text =>
      let submittedCode := trimSpace text
      if submittedCode = [] then .answered mine (refusal "Verification code is required")
      else match getClaim site mine address with
        | none =>
          if (view.ownRecord address).isNone then
            .answered mine (refusal "Address not found")
          else .answered mine (refusal "No pending verification for this address")
        | some challenge =>
          if challenge.codeHash = [] then
            .answered mine (refusal "No pending verification for this address")
          else if challenge.expiresAt < now then
            .answered (resetClaim site mine address) (refusal "Verification code has expired")
          else
            -- Counted before the comparison, so that a right code comes too late as well.
            let counted := { challenge with attempts := challenge.attempts + 1 }
            if maxVerifyAttempts < counted.attempts then
              .answered (resetClaim site mine address)
                (refusal "Too many failed attempts. Please request a new code.")
            else if site.hash submittedCode ≠ counted.codeHash then
              .answered (putClaim site mine address counted)
                (refusal "Incorrect verification code")
            else .correct address (verifiedRecord site view address)

end Handlers

section Worlds

/-- `rows` is the index beside `records`. `queued` counts other users' mails that wait for
the sender; `pending` holds the records that are checked and not written yet, by the address
whose lock is held; `log` is the user's replies. -/
structure World (Limiter : Type) where
  mine : Mine Limiter
  domains : Store Unit
  records : Store AddressRecord
  rows : Store AddressRecord
  users : List UserRow
  aliases : List AliasRow
  aliasKeys : Store Unit
  queued : Nat
  running : Bool
  pending : Store AddressRecord
  sent : List VerifyJob
  log : List Reply

variable (world : World Limiter)

def domainHosted (domains : Store Unit) (domain : Bytes) : Bool :=
  (get domains (keyOf site domain)).isSome

def ownRecord (records : Store AddressRecord) (address : Bytes) : Option AddressRecord :=
  (get records (keyOf site address)).filter fun record => record.userId = site.user

def owned (entries : Store AddressRecord) : Store AddressRecord :=
  entries.filter fun _ record => record.userId = site.user

def listByUser (rows : Store AddressRecord) : List Bytes :=
  if site.system then (owned site rows).keys else []

def viewOf : View where
  hosted := domainHosted site world.domains
  ownRecord := ownRecord site world.records
  listed := listByUser site world.rows
  running := world.running

def room : Bool := world.mine.jobs.length + world.queued < verifyQueueSize

/-- `lower` of SQLite folds ASCII only. -/
def sqliteLower (text : Bytes) : Bytes := lower text

/-- `checkAddressFreeFor`: what the user holds already does not count, an account and an
alias key always do. -/
def addressTaken (address : Bytes) : Bool :=
  world.users.any (fun row => sqliteLower row.username = address) ||
    (get world.rows address).any (fun row => row.userId ≠ site.user) ||
    world.aliases.any (fun row => sqliteLower row.address = address &&
      row.targetUserId ≠ site.user) ||
    (get world.records address).any (fun record => record.userId ≠ site.user) ||
    (get world.aliasKeys address).isSome

/-- No answer where a store the check needs is missing. -/
def addressUnavailable (address : Bytes) : Option Bool :=
  if !site.pebble then none
  else if domainHosted site world.domains (domainOf address) then some true
  else if !site.metadata || !site.applier then none
  else some (addressTaken site world address)

def World.answer (mine : Mine Limiter) (reply : Reply) : World Limiter :=
  { world with mine := mine, log := world.log ++ [reply] }

/-- The first half of `allocateLocked`, under the lock of the address; a second submission
for the address waits. -/
def allocate (address : Bytes) (record : AddressRecord) : World Limiter :=
  if (get world.pending address).isSome then world
  else match addressUnavailable site world address with
    | none => world.answer world.mine (serverError "failed to look up address")
    | some true =>
      world.answer (deleteClaim site world.mine address)
        (refusal "settings.sendAsVerificationFailed")
    | some false => { world with pending := set world.pending address record }

def writeRecord (address : Bytes) (record : AddressRecord) : World Limiter :=
  let stored := { record with domain := keyOf site record.domain }
  { world with
    records := set world.records (keyOf site address) stored
    rows := if site.system then set world.rows (keyOf site address) stored else world.rows
    pending := delete world.pending address
    mine := deleteClaim site world.mine address
    log := world.log ++ [.flash (ascii "address-verified")] }

/-- The sender takes a mail from the queue. A held address keeps its challenge, whose code
nobody has. -/
def sendVerification (job : VerifyJob) (rest : List VerifyJob) (checkFails mailFails : Bool) :
    World Limiter :=
  let taken := { world.mine with jobs := rest }
  let reset := { world with mine := resetClaim site taken job.address }
  if checkFails then reset
  else match addressUnavailable site world job.address with
    | none => reset
    | some true => { world with mine := taken }
    | some false =>
      if mailFails then reset else { world with mine := taken, sent := world.sent ++ [job] }

end Worlds

/-- What others do: accounts, aliases, address records and their rows, and mails of other
users for the sender. -/
inductive Change where
  | users (rows : List UserRow)
  | aliases (rows : List AliasRow)
  | aliasKey (address : Bytes) (present : Bool)
  | record (address : Bytes) (stored : Option AddressRecord)
  | row (address : Bytes) (stored : Option AddressRecord)
  | queued (count : Nat)
  deriving DecidableEq

inductive Event where
  | show (flash error : Bytes) (now : Int)
  | add (form : Option Bytes)
  | request (param : Bytes) (now : Int) (rawCode : Bytes)
  | submit (param : Bytes) (form : Option Bytes) (now : Int)
  | write (address : Bytes)
  | send (checkFails mailFails : Bool)
  | host (domain : Bytes) (hosted : Bool)
  | running (on : Bool)
  | change (change : Change)
  deriving DecidableEq

def put {V : Type} (entries : Store V) (key : Bytes) : Option V → Store V
  | some value => set entries key value
  | none => delete entries key

def flag (entries : Store Unit) (key : Bytes) (present : Bool) : Store Unit :=
  put entries key (if present then some () else none)

def Change.apply (change : Change) (world : World Limiter) : World Limiter :=
  match change with
  | .users rows => { world with users := rows }
  | .aliases rows => { world with aliases := rows }
  | .aliasKey address present => { world with aliasKeys := flag world.aliasKeys address present }
  | .record address stored => { world with records := put world.records address stored }
  | .row address stored => { world with rows := put world.rows address stored }
  | .queued count => { world with queued := count }

def step (world : World Limiter) : Event → World Limiter
  | .show flash error now =>
    world.answer world.mine (showAddresses site (viewOf site world) world.mine flash error now)
  | .add form =>
    let result := addSendAsAddress site (viewOf site world) world.mine form
    world.answer result.1 result.2
  | .request param now rawCode =>
    let result := requestVerification site (viewOf site world) world.mine (room world)
      param now rawCode
    world.answer result.1 result.2
  | .submit param form now =>
    match submitCode site (viewOf site world) world.mine param form now with
    | .answered mine reply => world.answer mine reply
    | .correct address record => allocate site world address record
  | .write address =>
    match get world.pending address with
    | none => world
    | some record => writeRecord site world address record
  | .send checkFails mailFails =>
    match world.mine.jobs with
    | [] => world
    | job :: rest => sendVerification site world job rest checkFails mailFails
  | .host domain hosted => { world with domains := flag world.domains domain hosted }
  | .running on => { world with running := on }
  | .change change => change.apply world

end Bongo.SendAs
