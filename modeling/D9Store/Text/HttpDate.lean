import D9Store.Text.Calendar

/-!
Dates in the form of HTTP headers, `Mon, 02 Jan 2006 15:04:05 GMT`.

An instant is given in seconds since the first of January of the year 1, a Monday. What is written of
an instant before the year 10000 is read back as that instant.
-/

namespace HttpDate

open Calendar

def dayNames : List (List Char) :=
  ["Mon".toList, "Tue".toList, "Wed".toList, "Thu".toList, "Fri".toList, "Sat".toList, "Sun".toList]

def monthNames : List (List Char) :=
  ["Jan".toList, "Feb".toList, "Mar".toList, "Apr".toList, "May".toList, "Jun".toList, "Jul".toList,
    "Aug".toList, "Sep".toList, "Oct".toList, "Nov".toList, "Dec".toList]

/-! ### Writing -/

def two (n : Nat) : List Char := [(n / 10 % 10).digitChar, (n % 10).digitChar]

/-- A year, with four digits or more. -/
def year (n : Nat) : List Char := if n < 10000 then two (n / 100) ++ two (n % 100) else Nat.toDigits 10 n

def write (t : Nat) : List Char :=
  let day := t / 86400
  let date := dateOf day
  let second := t % 86400
  dayNames.getD (day % 7) [] ++ ([',', ' '] ++ (two date.day ++ ([' '] ++
    (monthNames.getD date.month [] ++ ([' '] ++ (year date.year ++ ([' '] ++
      (two (second / 3600) ++ ([':'] ++ (two (second / 60 % 60) ++ ([':'] ++
        (two (second % 60) ++ [' ', 'G', 'M', 'T']))))))))))))

/-! ### Reading -/

/-- A fixed text. -/
def skip (mark text : List Char) : Option (List Char) :=
  if mark <+: text then some (text.drop mark.length) else none

/-- One of the names, all of three letters. -/
def name (names : List (List Char)) (text : List Char) : Option (Nat × List Char) :=
  (names.idxOf? (text.take 3)).map fun i => (i, text.drop 3)

def digit (c : Char) : Option Nat := if c.isDigit then some (c.toNat - '0'.toNat) else none

/-- A number of two digits. -/
def number : List Char → Option (Nat × List Char)
  | a :: b :: rest => do
    let tens ← digit a
    let ones ← digit b
    return (10 * tens + ones, rest)
  | _ => none

/-- The instant of a date and a time of day, if there is one. -/
def instant (year month day hour minute second : Nat) : Option Nat :=
  if h : (0 < year ∧ month < 12 ∧ 0 < day ∧ day ≤ (monthLengths year).getD month 0) ∧
      hour < 24 ∧ minute < 60 ∧ second < 60 then
    let date : Date := ⟨year, month, day, h.1.1, h.1.2.1, h.1.2.2.1, h.1.2.2.2⟩
    some (date.number * 86400 + hour * 3600 + minute * 60 + second)
  else none

def read (text : List Char) : Option Nat := do
  let (_, text) ← name dayNames text
  let text ← skip [',', ' '] text
  let (day, text) ← number text
  let text ← skip [' '] text
  let (month, text) ← name monthNames text
  let text ← skip [' '] text
  let (century, text) ← number text
  let (year, text) ← number text
  let text ← skip [' '] text
  let (hour, text) ← number text
  let text ← skip [':'] text
  let (minute, text) ← number text
  let text ← skip [':'] text
  let (second, text) ← number text
  if text = [' ', 'G', 'M', 'T'] then instant (100 * century + year) month day hour minute second
  else none

/-! ### Reading what was written -/

theorem skip_append (mark rest : List Char) : skip mark (mark ++ rest) = some rest := by
  rw [skip, if_pos (List.prefix_append _ _), List.drop_left]

theorem name_append {names : List (List Char)} {i : Nat} (inside : i < names.length)
    (letters : ∀ x ∈ names, x.length = 3) (distinct : names.Nodup) (rest : List Char) :
    name names (names.getD i [] ++ rest) = some (i, rest) := by
  rw [List.getD_eq_getElem _ _ inside]
  have length := letters _ (List.getElem_mem inside)
  have found : names.idxOf? names[i] = some i := by
    rw [List.idxOf?_eq_some_iff]
    refine ⟨inside, rfl, fun j before same => ?_⟩
    have eq := (List.Nodup.getElem_inj_iff distinct).mp same
    omega
  rw [name, List.take_left' length, List.drop_left' length, found, Option.map_some]

theorem digit_digitChar : ∀ n < 10, digit n.digitChar = some n := by decide

theorem number_two {n : Nat} (small : n < 100) (rest : List Char) :
    number (two n ++ rest) = some (n, rest) := by
  have tens := digit_digitChar (n / 10 % 10) (Nat.mod_lt _ (by decide))
  have ones := digit_digitChar (n % 10) (Nat.mod_lt _ (by decide))
  have value : 10 * (n / 10 % 10) + n % 10 = n := by omega
  simp only [two, List.cons_append, List.nil_append, number, tens, ones, Option.bind_eq_bind,
    Option.bind_some, Option.pure_def, value]

theorem day_lt (x : Date) : x.day < 100 := by
  have short : ∀ y m, (monthLengths y).getD m 0 < 100 := by
    intro y m
    cases inside : (monthLengths y)[m]? with
    | none => simp [inside]
    | some n =>
      have mem := List.mem_of_getElem? inside
      rw [List.getD_eq_getElem?_getD, inside, Option.getD_some]
      simp only [monthLengths, List.mem_cons, List.not_mem_nil, or_false] at mem
      split at mem <;> omega
  exact Nat.lt_of_le_of_lt x.day_le (short _ _)

theorem instant_dateOf (day : Nat) {hour minute second : Nat} (h : hour < 24) (m : minute < 60)
    (s : second < 60) :
    instant (dateOf day).year (dateOf day).month (dateOf day).day hour minute second =
      some (day * 86400 + hour * 3600 + minute * 60 + second) := by
  rw [instant, dif_pos ⟨⟨(dateOf day).year_pos, (dateOf day).month_lt, (dateOf day).day_pos,
    (dateOf day).day_le⟩, h, m, s⟩]
  dsimp only
  rw [number_dateOf]

theorem dayName_append (day : Nat) (rest : List Char) :
    name dayNames (dayNames.getD (day % 7) [] ++ rest) = some (day % 7, rest) := by
  have inside : day % 7 < dayNames.length := Nat.mod_lt _ (by decide)
  exact name_append inside (by decide) (by decide) rest

theorem monthName_append (x : Date) (rest : List Char) :
    name monthNames (monthNames.getD x.month [] ++ rest) = some (x.month, rest) :=
  name_append x.month_lt (by decide) (by decide) rest

theorem next {α β : Type} {x : Option α} {a : α} {f : α → Option β} {r : Option β} (here : x = some a)
    (rest : f a = r) : x >>= f = r := by
  rw [here]
  exact rest

/-- Instants before the year 10000 are read back. -/
theorem read_write {t : Nat} (before : t < daysOfYears 9999 * 86400) : read (write t) = some t := by
  have early : (dateOf (t / 86400)).year < 10000 :=
    Nat.lt_succ_of_le (year_dateOf_lt (Nat.div_lt_of_lt_mul (by rwa [Nat.mul_comm] at before)))
  have hour : t % 86400 / 3600 < 24 := by omega
  have minute : t % 86400 / 60 % 60 < 60 := Nat.mod_lt _ (by decide)
  have second : t % 86400 % 60 < 60 := Nat.mod_lt _ (by decide)
  have total : t / 86400 * 86400 + t % 86400 / 3600 * 3600 + t % 86400 / 60 % 60 * 60 +
      t % 86400 % 60 = t := by omega
  have valid := instant_dateOf (t / 86400) hour minute second
  rw [total] at valid
  have century : 100 * ((dateOf (t / 86400)).year / 100) + (dateOf (t / 86400)).year % 100 =
      (dateOf (t / 86400)).year := Nat.div_add_mod _ 100
  rw [write, read, year, if_pos early, List.append_assoc]
  refine next (dayName_append _ _) ?_
  refine next (skip_append _ _) ?_
  refine next (number_two (day_lt _) _) ?_
  refine next (skip_append _ _) ?_
  refine next (monthName_append _ _) ?_
  refine next (skip_append _ _) ?_
  refine next (number_two (by omega) _) ?_
  refine next (number_two (by omega) _) ?_
  refine next (skip_append _ _) ?_
  refine next (number_two (hour.trans (by decide)) _) ?_
  refine next (skip_append _ _) ?_
  refine next (number_two (minute.trans (by decide)) _) ?_
  refine next (skip_append _ _) ?_
  refine next (number_two (second.trans (by decide)) _) ?_
  refine (if_pos rfl).trans ?_
  rw [century, valid]

end HttpDate
