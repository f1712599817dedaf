import Bongo.ByteKeys
import Mathlib.Tactic.MkIffOfInductiveProp

/-!
The civil calendar, and the date and date-time texts of the layouts `20060102`,
`2006-01-02`, `20060102T150405` and the last with a final `Z`, as
`time.ParseInLocation` reads them and `Time.Format` writes them. A wall clock is
the number of seconds since 1970-01-01T00:00:00 of the same clock, a day is the
number of days since then; zones are a matter of the caller.

The day of a date is counted from 1 March, so that a leap day is the last of its
year, its four years and its four centuries.
-/

namespace Bongo.CivilTime

set_option maxRecDepth 100000

open ByteKeys

structure Date where
  year : Int
  month : Int
  day : Int
  deriving DecidableEq

def Leap (year : Int) : Prop := year % 4 = 0 ∧ (year % 100 ≠ 0 ∨ year % 400 = 0)

instance : DecidablePred Leap := fun _ => inferInstanceAs (Decidable (_ ∧ _))

def daysIn (year month : Int) : Int :=
  if month = 2 then (if Leap year then 29 else 28)
  else if month = 4 ∨ month = 6 ∨ month = 9 ∨ month = 11 then 30 else 31

@[mk_iff]
structure Date.Valid (date : Date) : Prop where
  month : 1 ≤ date.month ∧ date.month ≤ 12
  day : 1 ≤ date.day ∧ date.day ≤ daysIn date.year date.month

instance (date : Date) : Decidable date.Valid :=
  decidable_of_iff _ date.valid_iff.symm

/-- Days from 1 March to the first of a month, March being month 0. -/
def daysBefore (month : Int) : Int := (153 * month + 2) / 5

def dayNumber (date : Date) : Int :=
  let shift := if date.month ≤ 2 then 1 else 0
  let year := date.year - shift
  let month := date.month - 3 + 12 * shift
  365 * year + year / 4 - year / 100 + year / 400 + daysBefore month + date.day - 719469

structure Position where
  era : Int
  century : Int
  cycle : Int
  single : Int
  ofYear : Int

/-- The last century of an era and the last year of a cycle are a day longer
than the others, which is what the bounds by 3 are for. -/
def position (days : Int) : Position :=
  let ofEra := days % 146097
  let century := min (ofEra / 36524) 3
  let ofCentury := ofEra - 36524 * century
  let cycle := ofCentury / 1461
  let ofCycle := ofCentury - 1461 * cycle
  let single := min (ofCycle / 365) 3
  ⟨days / 146097, century, cycle, single, ofCycle - 365 * single⟩

def Position.date (place : Position) : Date :=
  let month := (5 * place.ofYear + 2) / 153
  let shift := if 10 ≤ month then 1 else 0
  { year := 400 * place.era + 100 * place.century + 4 * place.cycle + place.single + shift,
    month := month + 3 - 12 * shift,
    day := place.ofYear - daysBefore month + 1 }

def civil (number : Int) : Date := (position (number + 719468)).date

structure Position.Sound (days : Int) (place : Position) : Prop where
  total : days = 146097 * place.era + 36524 * place.century + 1461 * place.cycle +
    365 * place.single + place.ofYear
  century : 0 ≤ place.century ∧ place.century ≤ 3
  cycle : 0 ≤ place.cycle ∧ place.cycle ≤ 24
  single : 0 ≤ place.single ∧ place.single ≤ 3
  ofYear : 0 ≤ place.ofYear ∧ place.ofYear ≤ 365
  last : place.ofYear = 365 → place.single = 3 ∧ (place.cycle = 24 → place.century = 3)

theorem position_sound (days : Int) : (position days).Sound days := by
  constructor <;> simp only [position] <;> omega

variable {place : Position} {days : Int}

theorem dayNumber_date (sound : place.Sound days) : dayNumber place.date = days - 719468 := by
  obtain ⟨total, century, cycle, single, ofYear, -⟩ := sound
  by_cases late : 10 ≤ (5 * place.ofYear + 2) / 153
  · have early : (5 * place.ofYear + 2) / 153 + 3 - 12 * 1 ≤ 2 := by omega
    simp only [dayNumber, Position.date, daysBefore]
    omega
  · have later : ¬ (5 * place.ofYear + 2) / 153 + 3 - 12 * 0 ≤ 2 := by omega
    simp only [dayNumber, Position.date, daysBefore]
    omega

theorem date_valid (sound : place.Sound days) : place.date.Valid := by
  obtain ⟨-, century, cycle, single, ofYear, last⟩ := sound
  constructor
  · simp only [Position.date]
    split <;> omega
  simp only [Position.date, daysBefore, daysIn, Leap]
  by_cases late : 10 ≤ (5 * place.ofYear + 2) / 153
  · simp only [late]
    -- Only here is February, and its 29th is the 365th day after 1 March.
    split
    · split <;> omega
    · split <;> omega
  · split
    · omega
    · split <;> omega

/-- The first day of the year 0 and the day after the last of the year 9999,
the years that four digits spell. -/
theorem date_year (sound : place.Sound days) (low : -60 ≤ days) (high : days < 3652365) :
    0 ≤ place.date.year ∧ place.date.year < 10000 := by
  obtain ⟨total, century, cycle, single, ofYear, -⟩ := sound
  simp only [Position.date]
  constructor
  · by_cases positive : 0 ≤ place.era
    · split <;> omega
    have era : place.era = -1 := by omega
    have lastCentury : place.century = 3 := by omega
    have lastCycle : place.cycle = 24 := by omega
    have lastSingle : place.single = 3 := by omega
    have late : 10 ≤ (5 * place.ofYear + 2) / 153 := by omega
    rw [if_pos late]
    omega
  · by_cases small : place.era < 24
    · split <;> omega
    have era : place.era = 24 := by omega
    by_cases early : place.century < 3
    · split <;> omega
    · split <;> omega

theorem dayNumber_civil (number : Int) : dayNumber (civil number) = number := by
  have there := dayNumber_date (position_sound (number + 719468))
  rw [civil, there]
  omega

theorem civil_valid (number : Int) : (civil number).Valid :=
  date_valid (position_sound (number + 719468))

theorem civil_year {number : Int} (low : -719528 ≤ number) (high : number < 2932897) :
    0 ≤ (civil number).year ∧ (civil number).year < 10000 :=
  date_year (position_sound (number + 719468)) (by omega) (by omega)

theorem day_small {date : Date} (valid : date.Valid) : date.day ≤ 31 := by
  refine valid.day.2.trans ?_
  unfold daysIn
  split
  · split <;> omega
  · split <;> omega

theorem dayNumber_range {date : Date} (valid : date.Valid) (low : 0 ≤ date.year)
    (high : date.year < 10000) : -719528 ≤ dayNumber date ∧ dayNumber date < 2932897 := by
  have short := day_small valid
  obtain ⟨month, day⟩ := valid
  simp only [dayNumber, daysBefore]
  split <;> omega

example : civil 11016 = ⟨2000, 2, 29⟩ := by decide

/-! Reading. -/

def isDigit (byte : UInt8) : Bool := 48 ≤ byte && byte ≤ 57

def field (width : Nat) (text : Bytes) : Option (Nat × Bytes) :=
  if (text.take width).length = width ∧ (text.take width).all isDigit then
    some (readDecimal (text.take width), text.drop width)
  else none

def literal (pattern text : Bytes) : Option Bytes :=
  if text.take pattern.length = pattern then some (text.drop pattern.length) else none

/-- A fraction of a second is read after the seconds though no layout has one;
it does not count in whole seconds. -/
def fraction : Bytes → Bytes
  | mark :: first :: rest =>
    if (mark = 46 ∨ mark = 44) ∧ isDigit first then rest.dropWhile isDigit
    else mark :: first :: rest
  | text => text

def dateFields (separator text : Bytes) : Option (Int × Bytes) :=
  (field 4 text).bind fun (year, text) =>
  (literal separator text).bind fun text =>
  (field 2 text).bind fun (month, text) =>
  (literal separator text).bind fun text =>
  (field 2 text).bind fun (day, text) =>
  let date : Date := ⟨year, month, day⟩
  if date.Valid then some (dayNumber date, text) else none

def clockFields (text : Bytes) : Option (Int × Bytes) :=
  (field 2 text).bind fun (hour, text) =>
  (field 2 text).bind fun (minute, text) =>
  (field 2 text).bind fun (second, text) =>
  if hour < 24 ∧ minute < 60 ∧ second < 60 then
    some ((hour * 3600 + minute * 60 + second : Nat), fraction text)
  else none

def whole {A : Type} : A × Bytes → Option A
  | (value, []) => some value
  | (_, _ :: _) => none

/-- The layout `20060102`, or with a dash between the fields `2006-01-02`: the
wall clock of the midnight the day begins with. -/
def parseDate (separator text : Bytes) : Option Int :=
  ((dateFields separator text).bind whole).map (· * 86400)

/-- The layout `20060102T150405` with a final text. -/
def parseDateTime (ending text : Bytes) : Option Int :=
  (dateFields [] text).bind fun (day, text) =>
  (literal [84] text).bind fun text =>
  (clockFields text).bind fun (clock, text) =>
  (literal ending text).bind fun text =>
  whole (day * 86400 + clock, text)

/-! Writing. -/

def padded (width number : Nat) : Bytes :=
  if number < 10 ^ width then decimal width number
  else decimal (Nat.log 10 number + 1) number

def yearText (year : Int) : Bytes :=
  if year < 0 then 45 :: padded 4 year.natAbs else padded 4 year.natAbs

def formatDate (day : Int) : Bytes :=
  yearText (civil day).year ++ decimal 2 (civil day).month.toNat ++ decimal 2 (civil day).day.toNat

def formatClock (clock : Nat) : Bytes :=
  decimal 2 (clock / 3600) ++ decimal 2 (clock / 60 % 60) ++ decimal 2 (clock % 60)

def formatDateTime (wall : Int) : Bytes :=
  formatDate (wall / 86400) ++ [84] ++ formatClock (wall % 86400).toNat

/-- The wall clocks of the years 0 to 9999. -/
def Printable (wall : Int) : Prop := -719528 * 86400 ≤ wall ∧ wall < 2932897 * 86400

instance (wall : Int) : Decidable (Printable wall) := inferInstanceAs (Decidable (_ ∧ _))

/-! What is read is printable, and has no white space. -/

def Graphic (text : Bytes) : Prop := ∀ byte ∈ text, (0x21 : UInt8) ≤ byte ∧ byte ≤ 0x7E

instance (text : Bytes) : Decidable (Graphic text) := List.decidableBAll _ text

theorem graphic_append {left right : Bytes} (first : Graphic left) (second : Graphic right) :
    Graphic (left ++ right) := List.forall_mem_append.mpr ⟨first, second⟩

theorem isDigit_graphic : ∀ byte : UInt8, isDigit byte = true → 0x21 ≤ byte ∧ byte ≤ 0x7E := by
  decide

variable {text : Bytes}

theorem graphic_of_digits (digits : text.all isDigit = true) : Graphic text :=
  fun byte member => isDigit_graphic byte (List.all_eq_true.mp digits byte member)

variable {rest : Bytes}

theorem field_some {width : Nat} {number : Nat} (read : field width text = some (number, rest)) :
    ∃ digits, text = digits ++ rest ∧ digits.length = width ∧ Graphic digits ∧
      number = readDecimal digits := by
  unfold field at read
  split at read
  · rename_i shape
    obtain ⟨rfl, rfl⟩ := Prod.mk.inj (Option.some.inj read)
    exact ⟨text.take width, (List.take_append_drop width text).symm, shape.1,
      graphic_of_digits shape.2, rfl⟩
  · cases read

theorem literal_some {pattern : Bytes} (read : literal pattern text = some rest) :
    text = pattern ++ rest := by
  unfold literal at read
  split at read
  · rename_i same
    obtain rfl := Option.some.inj read
    calc text = text.take pattern.length ++ text.drop pattern.length :=
        (List.take_append_drop _ _).symm
      _ = pattern ++ text.drop pattern.length := by rw [same]
  · cases read

theorem dropWhile_digits (text : Bytes) :
    ∃ digits, text = digits ++ text.dropWhile isDigit ∧ Graphic digits := by
  refine ⟨text.takeWhile isDigit, List.takeWhile_append_dropWhile.symm, ?_⟩
  intro byte member
  exact isDigit_graphic byte (List.mem_takeWhile_imp member)

theorem fraction_graphic (text : Bytes) :
    ∃ front, text = front ++ fraction text ∧ Graphic front := by
  unfold fraction
  split
  · rename_i mark first rest
    split
    · rename_i shape
      obtain ⟨digits, parts, graphic⟩ := dropWhile_digits rest
      refine ⟨[mark, first] ++ digits, ?_, graphic_append ?_ graphic⟩
      · rw [List.append_assoc, ← parts]
        rfl
      · intro byte member
        rcases List.mem_cons.mp member with rfl | later
        · rcases shape.1 with rfl | rfl <;> decide
        · exact List.mem_singleton.mp later ▸ isDigit_graphic first shape.2
    · exact ⟨[], rfl, fun byte member => nomatch member⟩
  · exact ⟨[], rfl, fun byte member => nomatch member⟩

theorem readDecimal_bound {digits : Bytes} (plain : digits.all isDigit = true) :
    readDecimal digits < 10 ^ digits.length := by
  induction digits using List.reverseRecOn with
  | nil => decide
  | append_singleton front last ih =>
    rw [List.all_append, Bool.and_eq_true] at plain
    have small : last.toNat - 48 < 10 := by
      have shape : isDigit last = true := by simpa using plain.2
      simp only [isDigit, Bool.and_eq_true, decide_eq_true_eq] at shape
      have top : last.toNat ≤ 57 := shape.2
      omega
    have before := ih plain.1
    rw [readDecimal] at before ⊢
    rw [List.foldl_append, List.length_append, pow_add]
    simp only [List.foldl_cons, List.foldl_nil, List.length_singleton]
    omega

theorem field_bound {width : Nat} {number : Nat} (read : field width text = some (number, rest)) :
    number < 10 ^ width := by
  unfold field at read
  split at read
  · rename_i shape
    obtain ⟨rfl, rfl⟩ := Prod.mk.inj (Option.some.inj read)
    have bound := readDecimal_bound shape.2
    rwa [shape.1] at bound
  · cases read

/-- What a date takes of a text, and the range its day is in. -/
theorem dateFields_some {separator : Bytes} {day : Int} (plain : Graphic separator)
    (read : dateFields separator text = some (day, rest)) :
    ∃ front, text = front ++ rest ∧ Graphic front ∧ front.length = 8 + 2 * separator.length ∧
      -719528 ≤ day ∧ day < 2932897 := by
  obtain ⟨⟨year, afterYear⟩, yearRead, fromYear⟩ := Option.bind_eq_some_iff.mp read
  obtain ⟨afterFirst, firstRead, fromFirst⟩ := Option.bind_eq_some_iff.mp fromYear
  obtain ⟨⟨month, afterMonth⟩, monthRead, fromMonth⟩ := Option.bind_eq_some_iff.mp fromFirst
  obtain ⟨afterSecond, secondRead, fromSecond⟩ := Option.bind_eq_some_iff.mp fromMonth
  obtain ⟨⟨dayOf, afterDay⟩, dayRead, found⟩ := Option.bind_eq_some_iff.mp fromSecond
  have small := field_bound yearRead
  obtain ⟨yearDigits, rfl, yearLength, yearPlain, -⟩ := field_some yearRead
  obtain rfl := literal_some firstRead
  obtain ⟨monthDigits, rfl, monthLength, monthPlain, -⟩ := field_some monthRead
  obtain rfl := literal_some secondRead
  obtain ⟨dayDigits, rfl, dayLength, dayPlain, -⟩ := field_some dayRead
  dsimp only at found
  split at found
  · rename_i valid
    obtain ⟨rfl, rfl⟩ := Prod.mk.inj (Option.some.inj found)
    have range := dayNumber_range valid (by dsimp only; omega) (by dsimp only; omega)
    refine ⟨yearDigits ++ (separator ++ (monthDigits ++ (separator ++ dayDigits))),
      by simp only [List.append_assoc],
      graphic_append yearPlain (graphic_append plain (graphic_append monthPlain
        (graphic_append plain dayPlain))), ?_, range⟩
    simp only [List.length_append]
    omega
  · cases found

theorem clockFields_some {clock : Int} (read : clockFields text = some (clock, rest)) :
    ∃ front, text = front ++ rest ∧ Graphic front ∧ 6 ≤ front.length ∧
      0 ≤ clock ∧ clock < 86400 := by
  obtain ⟨⟨hour, afterHour⟩, hourRead, fromHour⟩ := Option.bind_eq_some_iff.mp read
  obtain ⟨⟨minute, afterMinute⟩, minuteRead, fromMinute⟩ := Option.bind_eq_some_iff.mp fromHour
  obtain ⟨⟨second, afterSecond⟩, secondRead, found⟩ := Option.bind_eq_some_iff.mp fromMinute
  obtain ⟨hourDigits, rfl, hourLength, hourPlain, -⟩ := field_some hourRead
  obtain ⟨minuteDigits, rfl, minuteLength, minutePlain, -⟩ := field_some minuteRead
  obtain ⟨secondDigits, rfl, secondLength, secondPlain, -⟩ := field_some secondRead
  dsimp only at found
  split at found
  · rename_i bounds
    obtain ⟨rfl, rfl⟩ := Prod.mk.inj (Option.some.inj found)
    obtain ⟨part, parts, partPlain⟩ := fraction_graphic afterSecond
    refine ⟨hourDigits ++ (minuteDigits ++ (secondDigits ++ part)), ?_,
      graphic_append hourPlain (graphic_append minutePlain (graphic_append secondPlain partPlain)),
      ?_, by omega, by omega⟩
    · simp only [List.append_assoc]
      rw [← parts]
    · simp only [List.length_append]
      omega
  · cases found

theorem whole_some {A : Type} {pair : A × Bytes} {value : A} (read : whole pair = some value) :
    pair = (value, []) := by
  obtain ⟨found, rest⟩ := pair
  cases rest with
  | nil => exact congrArg (·, []) (Option.some.inj read)
  | cons byte rest => cases read

variable {wall : Int}

theorem parseDate_some {separator : Bytes} (plain : Graphic separator)
    (read : parseDate separator text = some wall) :
    Graphic text ∧ text.length = 8 + 2 * separator.length ∧ Printable wall ∧ wall % 86400 = 0 := by
  obtain ⟨day, dayRead, rfl⟩ := Option.map_eq_some_iff.mp read
  obtain ⟨⟨found, rest⟩, fields, ended⟩ := Option.bind_eq_some_iff.mp dayRead
  obtain ⟨rfl, rfl⟩ := Prod.mk.inj (whole_some ended)
  obtain ⟨front, rfl, graphic, length, low, high⟩ := dateFields_some plain fields
  rw [List.append_nil]
  exact ⟨graphic, length, ⟨by omega, by omega⟩, by omega⟩

theorem parseDateTime_some {ending : Bytes} (plain : Graphic ending)
    (read : parseDateTime ending text = some wall) :
    Graphic text ∧ 15 ≤ text.length ∧ Printable wall := by
  obtain ⟨⟨day, afterDay⟩, dayRead, fromDay⟩ := Option.bind_eq_some_iff.mp read
  obtain ⟨afterMark, markRead, fromMark⟩ := Option.bind_eq_some_iff.mp fromDay
  obtain ⟨⟨clock, afterClock⟩, clockRead, fromClock⟩ := Option.bind_eq_some_iff.mp fromMark
  obtain ⟨afterEnding, endingRead, ended⟩ := Option.bind_eq_some_iff.mp fromClock
  obtain ⟨rfl, rfl⟩ := Prod.mk.inj (whole_some ended)
  have none : Graphic [] := by decide
  obtain ⟨date, rfl, datePlain, dateLength, low, high⟩ := dateFields_some none dayRead
  obtain rfl := literal_some markRead
  obtain ⟨clockText, rfl, clockPlain, clockLength, start, stop⟩ := clockFields_some clockRead
  obtain rfl := literal_some endingRead
  have mark : Graphic [84] := by decide
  refine ⟨graphic_append datePlain (graphic_append mark (graphic_append clockPlain
    (graphic_append plain none))), ?_, ⟨by omega, by omega⟩⟩
  simp only [List.length_append, List.length_singleton]
  omega

/-! A printable wall clock reads back from its text. -/

theorem decimal_digits (width number : Nat) : (decimal width number).all isDigit = true := by
  apply List.all_eq_true.mpr
  intro byte member
  obtain ⟨low, high⟩ := mem_decimal width number byte member
  simp only [isDigit, Bool.and_eq_true, decide_eq_true_eq]
  exact ⟨low, high⟩

theorem field_decimal {width number : Nat} (rest : Bytes) (bound : number < 10 ^ width) :
    field width (decimal width number ++ rest) = some (number, rest) := by
  have front : (decimal width number ++ rest).take width = decimal width number :=
    List.take_left' (decimal_length width number)
  have back : (decimal width number ++ rest).drop width = rest :=
    List.drop_left' (decimal_length width number)
  rw [field, front, back, readDecimal_decimal width number bound,
    if_pos ⟨decimal_length width number, decimal_digits width number⟩]

theorem literal_append (pattern rest : Bytes) : literal pattern (pattern ++ rest) = some rest := by
  rw [literal, List.take_left' rfl, List.drop_left' rfl, if_pos rfl]

theorem yearText_short {year : Int} (low : 0 ≤ year) (high : year < 10000) :
    yearText year = decimal 4 year.toNat := by
  have small : year.natAbs < 10 ^ 4 := by omega
  rw [yearText, if_neg (by omega), padded, if_pos small]
  congr 1
  omega

theorem dateFields_formatDate {day : Int} (rest : Bytes) (low : -719528 ≤ day)
    (high : day < 2932897) : dateFields [] (formatDate day ++ rest) = some (day, rest) := by
  have valid := civil_valid day
  have years := civil_year low high
  have short := day_small valid
  generalize shape : civil day = date at valid years short
  obtain ⟨year, month, dayOf⟩ := date
  have sameDay : dayNumber ⟨year, month, dayOf⟩ = day := shape ▸ dayNumber_civil day
  dsimp only at years short
  have months := valid.month
  have days := valid.day
  dsimp only at months days
  have back : (⟨(year.toNat : Int), (month.toNat : Int), (dayOf.toNat : Int)⟩ : Date) =
      ⟨year, month, dayOf⟩ := by
    rw [Int.toNat_of_nonneg years.1, Int.toNat_of_nonneg (by omega),
      Int.toNat_of_nonneg (by omega)]
  have empty : ∀ text : Bytes, literal [] text = some text := literal_append []
  simp only [dateFields, formatDate, shape, yearText_short years.1 years.2, List.append_assoc]
  rw [field_decimal _ (by omega), Option.bind_some, empty, Option.bind_some,
    field_decimal _ (by omega), Option.bind_some, empty, Option.bind_some,
    field_decimal _ (by omega), Option.bind_some]
  rw [back, if_pos valid, sameDay]

theorem parseDate_formatDate (day : Int) (low : -719528 ≤ day) (high : day < 2932897) :
    parseDate [] (formatDate day) = some (day * 86400) := by
  have fields := dateFields_formatDate [] low high
  rw [List.append_nil] at fields
  rw [parseDate, fields]
  rfl

theorem clockFields_formatClock (clock : Nat) (rest : Bytes) (bound : clock < 86400)
    (plain : fraction rest = rest) :
    clockFields (formatClock clock ++ rest) = some ((clock : Int), rest) := by
  simp only [clockFields, formatClock, List.append_assoc]
  rw [field_decimal _ (by omega), Option.bind_some,
    field_decimal _ (by omega), Option.bind_some,
    field_decimal _ (by omega), Option.bind_some]
  have bounds : clock / 3600 < 24 ∧ clock / 60 % 60 < 60 ∧ clock % 60 < 60 := by omega
  have total : clock / 3600 * 3600 + clock / 60 % 60 * 60 + clock % 60 = clock := by omega
  rw [if_pos bounds, total, plain]

theorem parseDateTime_formatDateTime (printable : Printable wall) (ending : Bytes)
    (plain : fraction ending = ending) :
    parseDateTime ending (formatDateTime wall ++ ending) = some wall := by
  obtain ⟨low, high⟩ := printable
  have clock : ((wall % 86400).toNat : Int) = wall % 86400 := Int.toNat_of_nonneg (by omega)
  simp only [parseDateTime, formatDateTime, List.append_assoc]
  rw [dateFields_formatDate _ (by omega) (by omega), Option.bind_some]
  rw [literal_append, Option.bind_some,
    clockFields_formatClock _ _ (by omega) plain, Option.bind_some]
  have ended : literal ending ending = some [] := by
    have there := literal_append ending []
    rwa [List.append_nil] at there
  rw [ended, Option.bind_some, clock, whole]
  congr 1
  omega

theorem formatDate_length (day : Int) (low : -719528 ≤ day) (high : day < 2932897) :
    (formatDate day).length = 8 := by
  have years := civil_year low high
  simp [formatDate, yearText_short years.1 years.2]

theorem formatDateTime_length (printable : Printable wall) : (formatDateTime wall).length = 15 := by
  obtain ⟨low, high⟩ := printable
  simp only [formatDateTime, formatClock, List.length_append, decimal_length,
    formatDate_length (wall / 86400) (by omega) (by omega), List.length_singleton]

theorem yearText_long (year : Int) (long : year < 0 ∨ 10000 ≤ year) :
    5 ≤ (yearText year).length := by
  have digits : ∀ number, 4 ≤ (padded 4 number).length ∧
      (10 ^ 4 ≤ number → 5 ≤ (padded 4 number).length) := by
    intro number
    unfold padded
    split
    · rw [decimal_length]
      omega
    · rename_i large
      have log := Nat.le_log_of_pow_le (by omega) (not_lt.mp large)
      rw [decimal_length]
      omega
  obtain ⟨least, more⟩ := digits year.natAbs
  unfold yearText
  split
  · rw [List.length_cons]
    omega
  · exact more (by omega)

/-- A printable wall clock is told from every other one by its text. -/
theorem formatDateTime_inj {other : Int} (printable : Printable wall)
    (same : formatDateTime other = formatDateTime wall) : other = wall := by
  have also : Printable other := by
    have length := formatDateTime_length printable
    rw [← same] at length
    simp only [formatDateTime, formatDate, formatClock, List.length_append, decimal_length,
      List.length_singleton] at length
    have long := yearText_long (civil (other / 86400)).year
    have range := dayNumber_range (civil_valid (other / 86400)) (by omega) (by omega)
    rw [dayNumber_civil] at range
    exact ⟨by omega, by omega⟩
  have read := parseDateTime_formatDateTime also [] rfl
  rw [same, parseDateTime_formatDateTime printable [] rfl] at read
  exact (Option.some.inj read).symm

example : parseDateTime [90] (formatDateTime 1792890000 ++ [90]) = some 1792890000 := by
  decide

end Bongo.CivilTime
