import Bongo.ByteKeys
import Mathlib.Data.List.DropRight

/-!
How a POP3 session writes a message. `writeByteStuffed` trims the message, splits
it into lines and writes them with their leading dots doubled; RETR writes all of
them and TOP only so many of the body.
-/

namespace Bongo.PopLines

open ByteKeys

def crlf : Bytes := [13, 10]

def trimRight (cutset text : Bytes) : Bytes := text.rdropWhile fun byte => byte ∈ cutset

/-- The loop over the lines. A negative `bodyLines` asks for the whole message. -/
def stuffFrom (bodyLines : Int) : Bool → Int → List Bytes → Bytes
  | _, _, [] => []
  | inBody, bodyCount, line :: rest =>
    let line := trimRight [13] line
    if inBody = false ∧ line = [] then crlf ++ stuffFrom bodyLines true bodyCount rest
    else if inBody = true ∧ 0 ≤ bodyLines ∧ bodyLines ≤ bodyCount then []
    else
      let bodyCount := if inBody = true ∧ 0 ≤ bodyLines then bodyCount + 1 else bodyCount
      (if line.head? = some 46 then [46] else []) ++ (line ++ crlf) ++
        stuffFrom bodyLines inBody bodyCount rest

def writeByteStuffed (data : Bytes) (bodyLines : Int) : Bytes :=
  stuffFrom bodyLines false 0 ((trimRight [13, 10] data).splitOn 10) ++ (46 :: crlf)

def Clean (line : Bytes) : Prop := 13 ∉ line ∧ 10 ∉ line

def text (lines : List Bytes) : Bytes := lines.flatMap (· ++ crlf)

def stuff (line : Bytes) : Bytes := if line.head? = some 46 then 46 :: line else line

def unstuff (line : Bytes) : Bytes := if line.head? = some 46 then line.tail else line

/-- The header lines, the empty line and so many body lines. -/
def top (lines : List Bytes) (count : Nat) : List Bytes :=
  lines.takeWhile (· ≠ []) ++ (lines.dropWhile (· ≠ [])).take (count + 1)

/-- What a client gets of a message with these lines. -/
structure Served (lines : List Bytes) : Prop where
  retr : ∃ body, (∀ line ∈ body, Clean line) ∧
    writeByteStuffed (text lines) (-1) = text (body ++ [[46]]) ∧ [46] ∉ body ∧
      text (body.map unstuff) = text lines
  top : ∀ count : Nat, writeByteStuffed (text lines) count =
    text ((top lines count).map stuff ++ [[46]])

variable {lines : List Bytes} {line : Bytes}

theorem splitOn_lines (clean : ∀ line ∈ lines, Clean line) {tail : Bytes} (unbroken : 10 ∉ tail) :
    (text lines ++ tail).splitOn 10 = lines.map (· ++ [13]) ++ [tail] := by
  have joined : text lines ++ tail = [10].intercalate (lines.map (· ++ [13]) ++ [tail]) := by
    induction lines with
    | nil => simp [text]
    | cons line rest ih =>
      rw [List.map_cons, List.cons_append, List.intercalate_cons_of_ne_nil (by simp),
        ← ih (List.forall_mem_cons.mp clean).2]
      simp [text, crlf]
  rw [joined, List.splitOn_intercalate _ _ (by simp)]
  intro piece member
  rcases List.mem_append.mp member with ended | last
  · obtain ⟨line, listed, rfl⟩ := List.mem_map.mp ended
    simpa using (clean line listed).2
  · exact List.mem_singleton.mp last ▸ unbroken

theorem text_inj {others : List Bytes} (clean : ∀ line ∈ lines, Clean line)
    (also : ∀ line ∈ others, Clean line) (same : text lines = text others) : lines = others := by
  have split := congrArg (List.splitOn 10) (congrArg (· ++ []) same)
  rw [splitOn_lines clean List.not_mem_nil, splitOn_lines also List.not_mem_nil] at split
  exact List.map_injective_iff.mpr (List.append_left_injective [13])
    (List.append_cancel_right split)

theorem trimRight_append {cutset : Bytes} (front : Bytes) {back : Bytes}
    (all : ∀ byte ∈ back, byte ∈ cutset) :
    trimRight cutset (front ++ back) = trimRight cutset front := by
  rw [trimRight, List.rdropWhile, List.reverse_append, List.dropWhile_append_of_pos, trimRight,
    List.rdropWhile]
  exact fun byte member => decide_eq_true (all byte (List.mem_reverse.mp member))

theorem trimRight_kept {cutset front : Bytes} (clean : ∀ byte ∈ line, byte ∉ cutset)
    (filled : line = [] → front = []) : trimRight cutset (front ++ line) = front ++ line := by
  rw [trimRight, List.rdropWhile_eq_self_iff]
  intro some_ last
  cases line using List.reverseRecOn with
  | nil => exact some_ (by rw [filled rfl]; rfl)
  | append_singleton start final =>
    have ends : (front ++ (start ++ [final])).getLast some_ = final := by simp
    exact clean final (by simp) (ends ▸ of_decide_eq_true last)

theorem trimRight_line (clean : Clean line) :
    trimRight [13] line = line ∧ trimRight [13] (line ++ [13]) = line := by
  have kept : trimRight [13] ([] ++ line) = [] ++ line :=
    trimRight_kept (fun byte member cut => clean.1 (List.mem_singleton.mp cut ▸ member)) fun _ =>
      rfl
  exact ⟨kept, (trimRight_append line fun byte member => member).trans kept⟩

/-- The lines that are left when the message is trimmed. An empty text has one line. -/
def shown (lines : List Bytes) : List Bytes :=
  if lines.rdropWhile (· = []) = [] then [[]] else lines.rdropWhile (· = [])

theorem shown_eq_iff (lines : List Bytes) :
    shown lines = lines ↔ lines = [[]] ∨ ∃ last ∈ lines.getLast?, last ≠ [] := by
  unfold shown
  cases lines using List.reverseRecOn with
  | nil => simp
  | append_singleton front last =>
    by_cases empty : last = []
    · have shorter : (front ++ [last]).rdropWhile (· = []) ≠ front ++ [last] := by
        rw [Ne, List.rdropWhile_eq_self_iff]
        simp [empty]
      simp only [List.getLast?_concat, Option.mem_some_iff, exists_eq_left', empty, ne_eq,
        not_true_eq_false, or_false]
      split
      · exact eq_comm
      · rename_i kept
        refine iff_of_false (empty ▸ shorter) fun same => kept ?_
        simp [same]
    · rw [List.rdropWhile_concat_neg _ _ _ (by simpa using empty)]
      simp [empty]

theorem split_lines (clean : ∀ line ∈ lines, Clean line) :
    ((trimRight [13, 10] (text lines)).splitOn 10).map (trimRight [13]) = shown lines := by
  have whole : lines.rdropWhile (· = []) ++ lines.rtakeWhile (· = []) = lines :=
    List.rdropWhile_append_rtakeWhile
  have blank : ∀ byte ∈ text (lines.rtakeWhile (· = [])), byte ∈ [13, 10] := by
    intro byte member
    obtain ⟨line, listed, inside⟩ := List.mem_flatMap.mp member
    have empty : line = [] := by simpa using List.mem_rtakeWhile_imp listed
    rwa [empty] at inside
  unfold shown
  generalize lines.rtakeWhile (· = []) = ends at whole blank
  split
  · rename_i none_
    rw [none_, List.nil_append] at whole
    rw [← whole, ← List.nil_append (text ends), trimRight_append [] blank]
    rfl
  · rename_i some_
    have last := List.rdropWhile_last_not _ _ some_
    generalize lines.rdropWhile (· = []) = kept at whole some_ last
    cases kept using List.reverseRecOn with
    | nil => exact absurd rfl some_
    | append_singleton front line =>
      rw [List.getLast_append_singleton, decide_eq_true_eq] at last
      have inFront : ∀ other ∈ front, Clean other := fun other member =>
        clean other (whole ▸ by simp [member])
      have here : Clean line := clean line (whole ▸ by simp)
      have tail : ∀ byte ∈ crlf ++ text ends, byte ∈ [13, 10] := fun byte member =>
        (List.mem_append.mp member).elim id (blank byte)
      have parts : text lines = (text front ++ line) ++ (crlf ++ text ends) := by
        rw [← whole]
        simp [text]
      rw [parts, trimRight_append _ tail, trimRight_kept _ (absurd · last),
        splitOn_lines inFront here.2, List.map_append, List.map_map]
      · rw [List.map_singleton, (trimRight_line here).1]
        congr 1
        exact (List.map_congr_left fun other member =>
          (trimRight_line (inFront other member)).2).trans (List.map_id front)
      · simp only [List.mem_cons, List.not_mem_nil, or_false]
        rintro byte member (rfl | rfl)
        · exact here.1 member
        · exact here.2 member

theorem stuff_text (line : Bytes) (rest : List Bytes) :
    text (stuff line :: rest) =
      (if line.head? = some 46 then [46] else []) ++ (line ++ crlf) ++ text rest := by
  rw [text, List.flatMap_cons, stuff]
  split <;> rfl

theorem stuffFrom_all (inBody : Bool) (count : Int) (lines : List Bytes) :
    stuffFrom (-1) inBody count lines = text ((lines.map (trimRight [13])).map stuff) := by
  induction lines generalizing inBody count with
  | nil => rfl
  | cons line rest ih =>
    rw [stuffFrom, List.map_cons, List.map_cons, stuff_text]
    dsimp only
    split
    · rename_i empty
      rw [ih, empty.2]
      rfl
    · rw [if_neg (by omega), ih]

theorem stuffFrom_body (bodyLines count : Nat) (lines : List Bytes) :
    stuffFrom bodyLines true count lines =
      text (((lines.map (trimRight [13])).take (bodyLines - count)).map stuff) := by
  induction lines generalizing count with
  | nil => simp [stuffFrom, text]
  | cons line rest ih =>
    rw [stuffFrom, List.map_cons]
    simp only [Bool.true_eq_false, false_and, if_false, true_and, Int.natCast_nonneg, if_true]
    split
    · rename_i enough
      rw [Nat.sub_eq_zero_of_le (by omega)]
      rfl
    · rename_i more
      obtain ⟨left, same⟩ : ∃ left, bodyLines - count = left + 1 :=
        ⟨bodyLines - (count + 1), by omega⟩
      have onward : bodyLines - (count + 1) = left := by omega
      rw [← Nat.cast_succ, ih, same, onward, List.take_succ_cons, List.map_cons, stuff_text]

theorem stuffFrom_top (bodyLines : Nat) (lines : List Bytes) :
    stuffFrom bodyLines false 0 lines =
      text ((top (lines.map (trimRight [13])) bodyLines).map stuff) := by
  induction lines with
  | nil => simp [stuffFrom, top, text]
  | cons line rest ih =>
    rw [stuffFrom, List.map_cons]
    by_cases empty : trimRight [13] line = []
    · have body := stuffFrom_body bodyLines 0 rest
      simp only [empty]
      rw [← Nat.cast_zero, body]
      simp [top, stuff, text]
    · simp only [if_false, Bool.false_eq_true, false_and]
      rw [ih, ← stuff_text]
      simp [top, empty]

theorem writeByteStuffed_shown (clean : ∀ line ∈ lines, Clean line) :
    writeByteStuffed (text lines) (-1) = text ((shown lines).map stuff ++ [[46]]) ∧
      ∀ count : Nat, writeByteStuffed (text lines) count =
        text ((top (shown lines) count).map stuff ++ [[46]]) := by
  refine ⟨?_, fun count => ?_⟩
  · rw [writeByteStuffed, stuffFrom_all, split_lines clean, text, text, List.flatMap_append]
    rfl
  · rw [writeByteStuffed, stuffFrom_top, split_lines clean, text, text, List.flatMap_append]
    rfl

theorem unstuff_stuff (line : Bytes) : unstuff (stuff line) = line := by
  unfold stuff
  split
  · rfl
  · rename_i plain
    rw [unstuff, if_neg plain]

theorem unstuff_stuffed (lines : List Bytes) : (lines.map stuff).map unstuff = lines := by
  rw [List.map_map]
  exact (List.map_congr_left fun line _ => unstuff_stuff line).trans (List.map_id lines)

theorem stuff_clean (clean : Clean line) : Clean (stuff line) := by
  unfold stuff
  split
  · exact ⟨by simpa using clean.1, by simpa using clean.2⟩
  · exact clean

theorem stuff_ne_dot (line : Bytes) : stuff line ≠ [46] := by
  unfold stuff
  split
  · rintro ⟨⟩
    contradiction
  · rintro rfl
    contradiction

theorem shown_clean (clean : ∀ line ∈ lines, Clean line) : ∀ line ∈ shown lines, Clean line := by
  unfold shown
  split
  · simp [Clean]
  · exact fun line member => clean line ((List.rdropWhile_prefix _ _).subset member)

/-- A message is served as it is unless it is empty or ends in an empty line, its only
line apart. -/
theorem served_iff (clean : ∀ line ∈ lines, Clean line) :
    Served lines ↔ lines = [[]] ∨ ∃ last ∈ lines.getLast?, last ≠ [] := by
  rw [← shown_eq_iff]
  obtain ⟨whole, part⟩ := writeByteStuffed_shown clean
  constructor
  · intro served
    obtain ⟨body, neat, written, -, back⟩ := served.retr
    have stuffed : ∀ line ∈ (shown lines).map stuff, Clean line :=
      List.forall_mem_map.mpr fun line member => stuff_clean (shown_clean clean line member)
    have dot : ∀ line ∈ [[46]], Clean line := by simp [Clean]
    have same := text_inj (List.forall_mem_append.mpr ⟨neat, dot⟩)
      (List.forall_mem_append.mpr ⟨stuffed, dot⟩) (written.symm.trans whole)
    rw [List.append_cancel_right same, unstuff_stuffed] at back
    exact text_inj (shown_clean clean) clean back
  · intro same
    rw [same] at whole part
    refine ⟨⟨lines.map stuff, ?_, whole, ?_, ?_⟩, part⟩
    · exact List.forall_mem_map.mpr fun line member => stuff_clean (clean line member)
    · intro member
      obtain ⟨line, -, dotted⟩ := List.mem_map.mp member
      exact stuff_ne_dot line dotted
    · rw [unstuff_stuffed]

theorem served_iff_dots : Served [ascii "H", [], ascii ".", ascii "..x"] :=
  (served_iff (by simp only [Clean]; decide)).mpr (.inr ⟨_, rfl, by decide⟩)

/-- The empty line at the end of the body is not written. -/
theorem last_line_lost :
    text [ascii "H", [], ascii "a", []] = ascii "H\r\n\r\na\r\n\r\n" ∧
      writeByteStuffed (text [ascii "H", [], ascii "a", []]) (-1) =
        ascii "H\r\n\r\na\r\n.\r\n" := by
  decide

end Bongo.PopLines
