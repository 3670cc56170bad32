import GeistServe.App.Observe
import GeistServe.Geistd.Framing
import GeistServe.Lib.Numeral

/-!
# A line of `/proc/<pid>/stat`: `app_process_parse_linux`

The command name stands in parentheses and may have any character in it, so the fields are
those behind the last closing parenthesis. Of the fields 3 to 24 four are numbers that count,
and each of the others is any word. Numbers are `uint64_t`: the arithmetic is checked, and a
checked operation stores what fits even when it fails.
-/

namespace GeistServe.App

open GeistServe.Lib GeistServe.Geistd GeistServe.Observe

/-- `strrchr`: from the last `c` on. -/
def strrchr (c : UInt8) : Bytes → Option Bytes
  | [] => none
  | x :: rest =>
      match strrchr c rest with
      | some s => some s
      | none => if x = c then some (x :: rest) else none

/-- `strtoull` to the base 10, of a text that starts with a digit: the number, `errno`, and
what is left. -/
def strtoull (s : Bytes) : Nat × Bool × Bytes :=
  let n := ofDigits (s.takeWhile isDigit)
  (min n (2 ^ 64 - 1), decide (2 ^ 64 ≤ n), s.dropWhile isDigit)

/-- The four numbers. -/
structure Counters where
  user : Nat := 0
  system : Nat := 0
  start : Nat := 0
  pages : Nat := 0
  deriving DecidableEq

/-- A number of one of the four fields. -/
def Counters.set (c : Counters) (field n : Nat) : Counters :=
  if field = 14 then { c with user := n }
  else if field = 15 then { c with system := n }
  else if field = 22 then { c with start := n }
  else if field = 24 then { c with pages := n }
  else c

/-- One turn of the loop: the field that starts behind the blanks, and where it ends. -/
def parseField (field : Nat) (p : Bytes) (c : Counters) : Option (Bytes × Counters) :=
  let p := p.dropWhile (· == 32)
  let stop := p.dropWhile fun c => c != 32 && c != 10
  if p = stop then none
  else if field = 14 ∨ field = 15 ∨ field = 22 ∨ field = 24 then
    if (p.head?).any isDigit then
      let (n, errno, parsed) := strtoull p
      if errno ∨ parsed ≠ stop then none else some (stop, c.set field n)
    else none
  else some (stop, c)

def parseFields : List Nat → Bytes → Counters → Option Counters
  | [], _, c => some c
  | field :: fields, p, c =>
      match parseField field p c with
      | none => none
      | some (p, c) => parseFields fields p c

/-- `app_process_parse_linux`. -/
def appProcessParseLinux (stat : Bytes) (hz page : Nat) (sample : ProcessSample) :
    Bool × ProcessSample :=
  match strrchr 41 (cstr stat) with
  | none => (false, sample)
  | some p =>
      if p[1]? ≠ some 32 ∨ hz = 0 ∨ page = 0 then (false, sample)
      else match parseFields (List.range' 3 22) (p.drop 2) {} with
        | none => (false, sample)
        | some c =>
            let ticks := c.user + c.system
            if 2 ^ 64 ≤ ticks ∨ 2 ^ 64 ≤ c.pages * page ∨ 2 ^ 64 ≤ ticks / hz * 1000000000 ∨
                2 ^ 64 ≤ ticks % hz * 1000000000 then (false, sample)
            else
              let cpu := ticks / hz * 1000000000 + ticks % hz * 1000000000 / hz
              let sample : ProcessSample := { sample with cpuNs := cpu % 2 ^ 64 }
              if 2 ^ 64 ≤ cpu then (false, sample)
              else (true, { sample with identity := c.start, rss := c.pages * page })

end GeistServe.App
