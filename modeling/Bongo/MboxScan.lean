import Bongo.Runes

/-!
The import of an mbox file. `scanMbox` reads the file in slices, which end at a
newline or when the read buffer is full, and hands over one message after the
other. The specification works on whole lines and knows no slices.
-/

namespace Bongo.MboxScan

open ByteKeys

variable {E : Type}

def mboxReadBufferSize : Nat := 65536

/-- The bytes of `"From "`. -/
def mboxSeparator : Bytes := [70, 114, 111, 109, 32]

/-- `bufio.Reader.ReadSlice` over one read of the underlying reader: the slices it
completes, and what is left in the buffer. -/
def readSlices (window : Nat) : Bytes → Bytes → List Bytes × Bytes
  | pending, [] => ([], pending)
  | pending, byte :: rest =>
    if byte = 10 ∨ pending.length + 1 = window then
      ((pending ++ [byte]) :: (readSlices window [] rest).1, (readSlices window [] rest).2)
    else readSlices window (pending ++ [byte]) rest

/-- All the slices of a reader. The last one is what is left when the reader ends. -/
def slices (window : Nat) : Bytes → List Bytes → List Bytes
  | pending, [] => if pending = [] then [] else [pending]
  | pending, read :: reads =>
    (readSlices window pending read).1 ++ slices window (readSlices window pending read).2 reads

/-- The arguments of one call of `fn`. -/
structure Call where
  msg : Bytes
  oversized : Bool
  deriving DecidableEq

/-- The variables of `scanMbox`, the calls so far and the error of the last one. -/
structure Scan (E : Type) where
  buf : Bytes
  inMessage : Bool
  oversized : Bool
  atLineStart : Bool
  inSepLine : Bool
  calls : List Call
  failed : Option E

def Scan.fresh : Scan E := ⟨[], false, false, true, false, [], none⟩

def Scan.call (fn : Call → Option E) (scan : Scan E) (made : Call) : Scan E :=
  { scan with calls := scan.calls ++ [made], failed := fn made }

def dropNewline (msg : Bytes) : Bytes := if msg.getLast? = some 10 then msg.dropLast else msg

/-- A message as it is handed over: the last one keeps its newline. -/
def trimmed (final : Bool) (body : Bytes) : Bytes := if final then body else dropNewline body

def flush (fn : Call → Option E) (final : Bool) (scan : Scan E) : Scan E :=
  if !scan.inMessage then scan
  else if scan.oversized then scan.call fn ⟨[], true⟩
  else if Runes.trimSpace (trimmed final scan.buf) = [] then scan
  else scan.call fn ⟨trimmed final scan.buf, false⟩

def complete (chunk : Bytes) : Bool := chunk.getLast? = some 10

/-- One round of the loop. After an error of `fn` the function has returned. -/
def scanChunk (maxMsg : Nat) (fn : Call → Option E) (scan : Scan E) (chunk : Bytes) : Scan E :=
  if scan.failed.isSome then scan
  else if scan.atLineStart && hasPrefix chunk mboxSeparator then
    if (flush fn false scan).failed.isSome then flush fn false scan
    else
      { flush fn false scan with
        buf := [], inMessage := true, oversized := false
        inSepLine := !complete chunk, atLineStart := complete chunk }
  else if scan.inSepLine then
    { scan with inSepLine := !complete chunk, atLineStart := complete chunk }
  else if scan.inMessage && !scan.oversized then
    if maxMsg < scan.buf.length + chunk.length then
      { scan with oversized := true, buf := [], atLineStart := complete chunk }
    else { scan with buf := scan.buf ++ chunk, atLineStart := complete chunk }
  else { scan with atLineStart := complete chunk }

/-- `readError` is the error the reader ends with, `none` for `io.EOF`. The result
has the calls of `fn` and the error returned. -/
def scanMbox (maxMsg : Nat) (fn : Call → Option E) (reads : List Bytes) (readError : Option E) :
    List Call × Option E :=
  let scan := (slices mboxReadBufferSize [] reads).foldl (scanChunk maxMsg fn) Scan.fresh
  if scan.failed.isSome then (scan.calls, scan.failed)
  else
    match readError with
    | none => ((flush fn true scan).calls, (flush fn true scan).failed)
    | some error => (scan.calls, some error)

/-! The specification: lines, bodies between separator lines, and the call each
body deserves. -/

/-- The lines of a text with their newlines; `line` is what the first has so far. -/
def linesFrom : Bytes → Bytes → List Bytes
  | line, [] => if line = [] then [] else [line]
  | line, byte :: rest =>
    if byte = 10 then (line ++ [byte]) :: linesFrom [] rest else linesFrom (line ++ [byte]) rest

/-- What stands between a separator and the next one or the end of the file. -/
structure Body where
  raw : Bytes
  final : Bool

/-- The bodies, given the one that is open. -/
def bodiesFrom : Option Bytes → List Bytes → List Body
  | none, [] => []
  | some raw, [] => [⟨raw, true⟩]
  | current, line :: rest =>
    if hasPrefix line mboxSeparator then
      current.toList.map (Body.mk · false) ++ bodiesFrom (some []) rest
    else bodiesFrom (current.map (· ++ line)) rest

def bodies (text : Bytes) : List Body := bodiesFrom none (linesFrom [] text)

def Body.message (body : Body) : Bytes := trimmed body.final body.raw

/-- Blank messages are skipped, and the limit is on the message. -/
def Body.expected (maxMsg : Nat) (body : Body) : Option Call :=
  if Runes.trimSpace body.message = [] then none
  else if body.message.length ≤ maxMsg then some ⟨body.message, false⟩
  else some ⟨[], true⟩

/-- The calls that are made when `fn` may fail: those up to its first error. -/
def performed (fn : Call → Option E) : List Call → List Call × Option E
  | [] => ([], none)
  | next :: rest =>
    match fn next with
    | some error => ([next], some error)
    | none => (next :: (performed fn rest).1, (performed fn rest).2)

def specification (maxMsg : Nat) (text : Bytes) : List Call :=
  (bodies text).filterMap (Body.expected maxMsg)

theorem performed_append (fn : Call → Option E) (calls more : List Call) :
    performed fn (calls ++ more) =
      if (performed fn calls).2.isSome then performed fn calls
      else ((performed fn calls).1 ++ (performed fn more).1, (performed fn more).2) := by
  induction calls with
  | nil => simp [performed]
  | cons next rest ih =>
    cases answer : fn next with
    | some error => simp [performed, answer]
    | none =>
      simp only [List.cons_append, performed, answer, ih]
      split <;> rfl

theorem performed_accepting (calls : List Call) :
    performed (fun _ => (none : Option E)) calls = (calls, none) := by
  induction calls with
  | nil => rfl
  | cons next rest ih => simp [performed, ih]

/-! The slices depend on the text alone, not on the reads it comes in. -/

theorem slices_nil_cons (window : Nat) (pending : Bytes) (reads : List Bytes) :
    slices window pending ([] :: reads) = slices window pending reads := by
  simp [slices, readSlices]

theorem slices_byte (window : Nat) (pending : Bytes) (byte : UInt8) (read : Bytes)
    (reads : List Bytes) :
    slices window pending ((byte :: read) :: reads) =
      if byte = 10 ∨ pending.length + 1 = window then
        (pending ++ [byte]) :: slices window [] (read :: reads)
      else slices window (pending ++ [byte]) (read :: reads) := by
  simp only [slices, readSlices]
  split <;> simp

theorem slices_append (window : Nat) (pending read more : Bytes) (reads : List Bytes) :
    slices window pending ((read ++ more) :: reads) =
      slices window pending (read :: more :: reads) := by
  induction read generalizing pending with
  | nil => rw [List.nil_append, slices_nil_cons]
  | cons byte rest ih =>
    rw [List.cons_append, slices_byte, slices_byte, ih, ih]

theorem slices_flatten (window : Nat) (pending : Bytes) (reads : List Bytes) :
    slices window pending reads = slices window pending [reads.flatten] := by
  induction reads generalizing pending with
  | nil => rw [List.flatten_nil, slices_nil_cons]
  | cons read reads ih =>
    rw [List.flatten_cons, slices_append]
    simp only [slices]
    rw [ih]
    rfl

/-! From slices to lines. `Track` follows the scan with the raw bodies in place of
the buffer and the calls. -/

structure Track where
  closed : List Bytes
  current : Option Bytes
  atLineStart : Bool
  inSepLine : Bool

def Track.step (track : Track) (chunk : Bytes) : Track :=
  if track.atLineStart && hasPrefix chunk mboxSeparator then
    ⟨track.closed ++ track.current.toList, some [], complete chunk, !complete chunk⟩
  else if track.inSepLine then
    { track with inSepLine := !complete chunk, atLineStart := complete chunk }
  else { track with current := track.current.map (· ++ chunk), atLineStart := complete chunk }

def Track.bodies (track : Track) : List Body :=
  track.closed.map (Body.mk · false) ++ track.current.toList.map (Body.mk · true)

/-- The track inside a line of which the slices `passed` have been read. -/
def Track.inside (closed : List Bytes) (current : Option Bytes) (passed : Bytes) : Track :=
  if passed = [] then ⟨closed, current, true, false⟩
  else if hasPrefix passed mboxSeparator then ⟨closed ++ current.toList, some [], false, true⟩
  else ⟨closed, current.map (· ++ passed), false, false⟩

/-- The slices of a line are long enough to tell a separator line. -/
def Telling (passed : Bytes) : Prop := passed = [] ∨ mboxSeparator.length ≤ passed.length

theorem hasPrefix_of_telling (passed more : Bytes)
    (long : mboxSeparator.length ≤ passed.length) :
    hasPrefix (passed ++ more) mboxSeparator = hasPrefix passed mboxSeparator := by
  rw [Bool.eq_iff_iff, hasPrefix_iff, hasPrefix_iff]
  constructor
  · intro starts
    exact List.prefix_of_prefix_length_le starts (List.prefix_append _ _) long
  · intro starts
    exact starts.trans (List.prefix_append _ _)

theorem bodiesFrom_end (closed : List Bytes) (current : Option Bytes) (start sep : Bool) :
    (Track.mk closed current start sep).bodies =
      closed.map (Body.mk · false) ++ bodiesFrom current [] := by
  cases current <;> rfl

theorem bodiesFrom_line (current : Option Bytes) (line : Bytes) (rest : List Bytes) :
    bodiesFrom current (line :: rest) =
      if hasPrefix line mboxSeparator then
        current.toList.map (Body.mk · false) ++ bodiesFrom (some []) rest
      else bodiesFrom (current.map (· ++ line)) rest := by
  cases current <;> rfl

/-- What the last slice of a line does. -/
theorem step_inside (closed : List Bytes) (current : Option Bytes) (passed chunk : Bytes)
    (telling : Telling passed) :
    (Track.inside closed current passed).step chunk =
      if hasPrefix (passed ++ chunk) mboxSeparator then
        ⟨closed ++ current.toList, some [], complete chunk, !complete chunk⟩
      else ⟨closed, current.map (· ++ (passed ++ chunk)), complete chunk, false⟩ := by
  by_cases empty : passed = []
  · subst empty
    simp [Track.inside, Track.step]
  · have long := telling.resolve_left empty
    rw [hasPrefix_of_telling passed chunk long]
    cases starts : hasPrefix passed mboxSeparator
    · simp [Track.inside, Track.step, empty, starts, Function.comp_def]
    · simp [Track.inside, Track.step, empty, starts]

theorem step_partial (closed : List Bytes) (current : Option Bytes) (passed chunk : Bytes)
    (telling : Telling passed) (some_bytes : chunk ≠ []) (broken : complete chunk = false) :
    (Track.inside closed current passed).step chunk =
      Track.inside closed current (passed ++ chunk) := by
  rw [step_inside closed current passed chunk telling, Track.inside]
  simp [some_bytes, broken]

theorem complete_append (pending : Bytes) (byte : UInt8) :
    complete (pending ++ [byte]) = decide (byte = 10) := by
  simp [complete]

/-- The induction is on the text; `passed` are the slices of the line at hand that
were handed over, `pending` what the buffer holds of it. -/
theorem slices_bodies (window : Nat) (wide : mboxSeparator.length ≤ window) (text : Bytes)
    (pending passed : Bytes) (closed : List Bytes) (current : Option Bytes)
    (telling : Telling passed) :
    ((slices window pending [text]).foldl Track.step
        (Track.inside closed current passed)).bodies =
      closed.map (Body.mk · false) ++ bodiesFrom current (linesFrom (passed ++ pending) text) := by
  induction text generalizing pending passed closed current with
  | nil =>
    rw [slices_nil_cons]
    by_cases rest : pending = []
    · subst rest
      by_cases empty : passed = []
      · simp [slices, linesFrom, empty, Track.inside, bodiesFrom_end]
      · simp only [slices, if_true, List.foldl_nil, List.append_nil, linesFrom, if_neg empty,
          Track.inside, bodiesFrom_line]
        split <;> simp [bodiesFrom_end]
    · have nonempty : passed ++ pending ≠ [] := by simp [rest]
      simp only [slices, if_neg rest, List.foldl_cons, List.foldl_nil, linesFrom,
        if_neg nonempty, step_inside closed current passed pending telling, bodiesFrom_line]
      split <;> simp [bodiesFrom_end]
  | cons byte text ih =>
    rw [slices_byte, linesFrom, List.append_assoc]
    by_cases newline : byte = 10
    · have ended : complete (pending ++ [byte]) = true := by simp [complete_append, newline]
      rw [if_pos (Or.inl newline), if_pos newline, List.foldl_cons,
        step_inside closed current passed _ telling, bodiesFrom_line, ended]
      split
      · have next := ih [] [] (closed ++ current.toList) (some []) (Or.inl rfl)
        simpa [Track.inside] using next
      · have next := ih [] [] closed (current.map (· ++ (passed ++ (pending ++ [byte]))))
          (Or.inl rfl)
        simpa [Track.inside] using next
    · have broken : complete (pending ++ [byte]) = false := by simp [complete_append, newline]
      rw [if_neg newline]
      split
      case isTrue full =>
        have exact := full.resolve_left newline
        have long : Telling (passed ++ (pending ++ [byte])) := by
          right
          simp only [List.length_append, List.length_singleton]
          omega
        rw [List.foldl_cons, step_partial closed current passed _ telling (by simp) broken,
          ih [] _ closed current long, List.append_nil]
      case isFalse => exact ih (pending ++ [byte]) passed closed current telling

/-! The scan keeps of a body what its call needs. -/

/-- The call `scanMbox` makes for a body: the limit is on the raw text. -/
def Body.handed (maxMsg : Nat) (body : Body) : Option Call :=
  if maxMsg < body.raw.length then some ⟨[], true⟩
  else if Runes.trimSpace body.message = [] then none
  else some ⟨body.message, false⟩

def Track.handed (maxMsg : Nat) (track : Track) : List Call :=
  (track.closed.map (Body.mk · false)).filterMap (Body.handed maxMsg)

structure Follows (maxMsg : Nat) (fn : Call → Option E) (scan : Scan E) (track : Track) :
    Prop where
  calls : (scan.calls, scan.failed) = performed fn (track.handed maxMsg)
  message : scan.failed = none → scan.inMessage = track.current.isSome
  lines : scan.failed = none →
    scan.atLineStart = track.atLineStart ∧ scan.inSepLine = track.inSepLine
  body : scan.failed = none → ∀ raw ∈ track.current,
    scan.oversized = decide (maxMsg < raw.length) ∧ (scan.oversized = false → scan.buf = raw)

section Steps

variable {maxMsg : Nat} {fn : Call → Option E} {scan : Scan E} {track : Track}

theorem flush_open (follows : Follows maxMsg fn scan track) (running : scan.failed = none)
    (final : Bool) (raw : Bytes) (isOpen : track.current = some raw) :
    flush fn final scan =
      match Body.handed maxMsg ⟨raw, final⟩ with
      | some made => scan.call fn made
      | none => scan := by
  obtain ⟨sized, kept⟩ := follows.body running raw isOpen
  have inside : scan.inMessage = true := by rw [follows.message running, isOpen]; rfl
  by_cases large : maxMsg < raw.length
  · have big : scan.oversized = true := by simp [sized, large]
    simp [flush, inside, big, Body.handed, large]
  · have small : scan.oversized = false := by simp [sized, large]
    simp only [flush, inside, small, kept small, Body.handed, large, Body.message, Bool.not_true,
      Bool.false_eq_true, if_false]
    by_cases blank : Runes.trimSpace (trimmed final raw) = []
    · simp only [blank, if_true]
    · simp only [blank, if_false]

/-- What is called by the end of a flush. -/
theorem flush_calls (follows : Follows maxMsg fn scan track) (running : scan.failed = none)
    (final : Bool) :
    ((flush fn final scan).calls, (flush fn final scan).failed) =
      performed fn (track.handed maxMsg ++
        (track.current.toList.map (Body.mk · final)).filterMap (Body.handed maxMsg)) := by
  have before := follows.calls
  rw [running] at before
  rw [performed_append, ← before]
  cases isOpen : track.current with
  | none =>
    have outside : scan.inMessage = false := by rw [follows.message running, isOpen]; rfl
    simp [flush, outside, running, performed]
  | some raw =>
    rw [flush_open follows running final raw isOpen]
    cases call : Body.handed maxMsg ⟨raw, final⟩ with
    | none => simp [call, running, performed]
    | some made =>
      cases answer : fn made <;> simp [call, Scan.call, performed, answer]

theorem handed_closed (closed : List Bytes) (current : Option Bytes) (start sep : Bool) :
    Track.handed maxMsg ⟨closed ++ current.toList, some [], start, sep⟩ =
      (closed.map (Body.mk · false)).filterMap (Body.handed maxMsg) ++
        (current.toList.map (Body.mk · false)).filterMap (Body.handed maxMsg) := by
  simp [Track.handed]

/-- After an error of `fn` nothing more is called, whatever follows in the file. -/
theorem follows_failed (follows : Follows maxMsg fn scan track)
    (stopped : scan.failed.isSome = true) (chunk : Bytes) :
    Follows maxMsg fn scan (track.step chunk) := by
  have never : scan.failed ≠ none := by
    intro running
    simp [running] at stopped
  refine ⟨?_, fun running => absurd running never, fun running => absurd running never,
    fun running => absurd running never⟩
  unfold Track.step
  split
  · rw [handed_closed, performed_append]
    have calls := follows.calls
    rw [Track.handed] at calls
    rw [← calls, if_pos stopped]
  · split <;> exact follows.calls

/-- A slice of text goes to the open body, if there is one. -/
theorem follows_text (follows : Follows maxMsg fn scan track) (running : scan.failed = none)
    (chunk : Bytes) :
    Follows maxMsg fn
      (if scan.inMessage && !scan.oversized then
        if maxMsg < scan.buf.length + chunk.length then
          { scan with oversized := true, buf := [], atLineStart := complete chunk }
        else { scan with buf := scan.buf ++ chunk, atLineStart := complete chunk }
      else { scan with atLineStart := complete chunk })
      { track with
        current := track.current.map (· ++ chunk), atLineStart := complete chunk } := by
  have inside := follows.message running
  have sep := (follows.lines running).2
  cases isOpen : track.current with
  | none =>
    have outside : scan.inMessage = false := by rw [inside, isOpen]; rfl
    simp only [outside, Bool.false_and, Bool.false_eq_true, if_false, Option.map_none]
    exact ⟨follows.calls, fun _ => rfl, fun _ => ⟨rfl, sep⟩, fun _ _ absent => by cases absent⟩
  | some raw =>
    have present : scan.inMessage = true := by rw [inside, isOpen]; rfl
    obtain ⟨sized, kept⟩ := follows.body running raw isOpen
    cases big : scan.oversized with
    | true =>
      have large : maxMsg < raw.length := by simpa [big] using sized
      simp only [Bool.not_true, Bool.and_false, Bool.false_eq_true, if_false]
      refine ⟨follows.calls, fun _ => present, fun _ => ⟨rfl, sep⟩, ?_⟩
      rintro - _ ⟨⟩
      have larger : maxMsg < (raw ++ chunk).length := by
        rw [List.length_append]
        omega
      exact ⟨by simp only [larger, decide_true], fun small => by simp at small⟩
    | false =>
      simp only [present, Bool.not_false, Bool.and_self, if_true, kept big]
      split
      case isTrue large =>
        refine ⟨follows.calls, fun _ => rfl, fun _ => ⟨rfl, sep⟩, ?_⟩
        rintro - _ ⟨⟩
        simp [large]
      case isFalse small =>
        refine ⟨follows.calls, fun _ => rfl, fun _ => ⟨rfl, sep⟩, ?_⟩
        rintro - _ ⟨⟩
        simpa [big] using small

theorem follows_step (follows : Follows maxMsg fn scan track) (chunk : Bytes) :
    Follows maxMsg fn (scanChunk maxMsg fn scan chunk) (track.step chunk) := by
  by_cases stopped : scan.failed.isSome = true
  · rw [scanChunk, if_pos stopped]
    exact follows_failed follows stopped chunk
  have running : scan.failed = none := by simpa using stopped
  obtain ⟨start, sep⟩ := follows.lines running
  have inside := follows.message running
  rw [scanChunk, if_neg stopped, Track.step, start]
  by_cases opens : (track.atLineStart && hasPrefix chunk mboxSeparator) = true
  · -- a separator line closes the open body, whose call may fail
    rw [if_pos opens, if_pos opens]
    have flushed := flush_calls follows running false
    rw [Track.handed, ← handed_closed track.closed track.current (complete chunk)
      (!complete chunk)] at flushed
    split
    case isTrue failed =>
      have never : (flush fn false scan).failed ≠ none := by
        intro none
        simp [none] at failed
      exact ⟨flushed, fun running => absurd running never, fun running => absurd running never,
        fun running => absurd running never⟩
    case isFalse =>
      refine ⟨flushed, fun _ => rfl, fun _ => ⟨rfl, rfl⟩, fun _ raw same => ?_⟩
      cases same
      simp
  · rw [if_neg opens, if_neg opens]
    by_cases skips : scan.inSepLine = true
    · have same : track.inSepLine = true := sep ▸ skips
      rw [if_pos skips, if_pos same]
      exact ⟨follows.calls, fun _ => inside, fun _ => ⟨rfl, rfl⟩, follows.body⟩
    · have text : ¬track.inSepLine = true := sep ▸ skips
      rw [if_neg skips, if_neg text]
      exact follows_text follows running chunk

end Steps

theorem follows_run (maxMsg : Nat) (fn : Call → Option E) (chunks : List Bytes) (scan : Scan E)
    (track : Track) (follows : Follows maxMsg fn scan track) :
    Follows maxMsg fn (chunks.foldl (scanChunk maxMsg fn) scan)
      (chunks.foldl Track.step track) := by
  induction chunks generalizing scan track with
  | nil => exact follows
  | cons chunk rest ih => exact ih _ _ (follows_step follows chunk)

theorem follows_fresh (maxMsg : Nat) (fn : Call → Option E) :
    Follows maxMsg fn Scan.fresh (Track.inside [] none []) :=
  ⟨rfl, fun _ => rfl, fun _ => ⟨rfl, rfl⟩, fun _ _ absent => by cases absent⟩

/-- What a whole scan calls, in terms of the lines of the file. -/
theorem scanMbox_handed (maxMsg : Nat) (fn : Call → Option E) (reads : List Bytes) :
    scanMbox maxMsg fn reads none =
      performed fn ((bodies reads.flatten).filterMap (Body.handed maxMsg)) := by
  have run := follows_run maxMsg fn (slices mboxReadBufferSize [] reads) _ _
    (follows_fresh maxMsg fn)
  have cut := slices_bodies mboxReadBufferSize (by decide) reads.flatten [] [] [] none
    (Or.inl rfl)
  rw [← slices_flatten] at cut
  change _ = bodies reads.flatten at cut
  rw [← cut, Track.bodies, List.filterMap_append]
  simp only [scanMbox]
  split
  case isTrue stopped =>
    rw [performed_append]
    have calls := run.calls
    rw [Track.handed] at calls
    rw [← calls, if_pos stopped]
  case isFalse running => exact flush_calls run (by simpa using running) true

/-! Where the two limits agree. -/

theorem filterMap_eq_iff {A B : Type} (f g : A → Option B) (fewer : ∀ a, f a = none → g a = none)
    (items : List A) : items.filterMap f = items.filterMap g ↔ ∀ item ∈ items, f item = g item := by
  constructor
  · have shorter (rest : List A) : (rest.filterMap g).length ≤ (rest.filterMap f).length := by
      induction rest with
      | nil => exact Nat.le_refl _
      | cons item rest ih =>
        cases left : f item with
        | none => simpa [left, fewer item left] using ih
        | some x => cases right : g item <;> simp [left, right] <;> omega
    intro same
    induction items with
    | nil => simp
    | cons item rest ih =>
      cases left : f item with
      | none =>
        have right := fewer item left
        have later : rest.filterMap f = rest.filterMap g := by simpa [left, right] using same
        simpa [left, right] using ih later
      | some x =>
        cases right : g item with
        | none =>
          have lengths := congrArg List.length same
          have bound := shorter rest
          simp only [List.filterMap_cons, left, right, List.length_cons] at lengths
          omega
        | some y =>
          have heads : x = y ∧ rest.filterMap f = rest.filterMap g := by
            simpa [left, right] using same
          simpa [left, right, heads.1] using ih heads.2
  · exact List.filterMap_congr

/-- A raw text over the limit holds a message over the limit that is not blank. -/
def Body.Clear (maxMsg : Nat) (body : Body) : Prop :=
  maxMsg < body.raw.length →
    maxMsg < body.message.length ∧ Runes.trimSpace body.message ≠ []

theorem message_length_le (body : Body) : body.message.length ≤ body.raw.length := by
  unfold Body.message trimmed dropNewline
  split
  · exact Nat.le_refl _
  · split
    · simp
    · exact Nat.le_refl _

theorem handed_eq_iff (maxMsg : Nat) (body : Body) :
    body.handed maxMsg = body.expected maxMsg ↔ body.Clear maxMsg := by
  have bound := message_length_le body
  unfold Body.handed Body.expected Body.Clear
  by_cases large : maxMsg < body.raw.length
  · by_cases blank : Runes.trimSpace body.message = []
    · simp [large, blank]
    · by_cases fits : body.message.length ≤ maxMsg
      · simp [large, blank, fits]
      · simp [large, blank, fits]
        omega
  · have fits : body.message.length ≤ maxMsg := by omega
    simp [large, fits]

theorem expected_none (maxMsg : Nat) (body : Body) (skipped : body.handed maxMsg = none) :
    body.expected maxMsg = none := by
  by_cases large : maxMsg < body.raw.length
  · simp [Body.handed, large] at skipped
  · rw [← (handed_eq_iff maxMsg body).2 fun larger => absurd larger large, skipped]

/-- However the file comes in and whatever `fn` answers, the calls are those of the
specification, exactly if no body is over the limit by its last newline alone or
by white space. -/
theorem scanMbox_specified_iff (maxMsg : Nat) (text : Bytes) :
    (∀ (fn : Call → Option E) (reads : List Bytes), reads.flatten = text →
      scanMbox maxMsg fn reads none = performed fn (specification maxMsg text)) ↔
    ∀ body ∈ bodies text, body.Clear maxMsg := by
  have pointwise := filterMap_eq_iff (Body.handed maxMsg) (Body.expected maxMsg)
    (expected_none maxMsg) (bodies text)
  simp only [handed_eq_iff] at pointwise
  rw [← pointwise]
  constructor
  · intro always
    have accepted := always (fun _ => none) [text] (by simp)
    rw [scanMbox_handed, performed_accepting, performed_accepting] at accepted
    simpa [specification] using accepted
  · intro same fn reads whole
    rw [scanMbox_handed, whole, same, specification]

/-- With a limit of two bytes, `hi` before another separator is reported as too
long; the specification delivers it. -/
theorem scanMbox_exact_fit_oversized :
    let text := mboxSeparator ++ [97, 10] ++ [104, 105, 10] ++ mboxSeparator ++ [98, 10]
    scanMbox 2 (fun _ => (none : Option Unit)) [text] none = ([⟨[], true⟩], none) ∧
      specification 2 text = [⟨[104, 105], false⟩] := by
  decide

end Bongo.MboxScan
