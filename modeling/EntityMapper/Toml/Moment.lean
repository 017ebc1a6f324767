import EntityMapper.Toml.Text

namespace EntityMapper.Toml

open Reader

structure Date where
  year : Nat
  month : Nat
  day : Nat
  deriving DecidableEq, Repr, Inhabited

/-- A time of day; a second of sixty is a leap second. -/
structure Clock where
  hour : Nat
  minute : Nat
  second : Nat
  nanosecond : Nat
  deriving DecidableEq, Repr, Inhabited

/-- A date, a time of day, or both, and then with minutes from universal time or without. -/
inductive Moment where
  | date (date : Date)
  | clock (clock : Clock)
  | unzoned (date : Date) (clock : Clock)
  | zoned (date : Date) (clock : Clock) (offset : Int)
  deriving DecidableEq, Repr, Inhabited

def isLeapYear (year : Nat) : Bool := year % 4 == 0 && (year % 100 != 0 || year % 400 == 0)

def daysIn (year month : Nat) : Nat :=
  if month = 2 then if isLeapYear year then 29 else 28
  else if month ∈ [4, 6, 9, 11] then 30
  else 31

/-- A number of fixed width between two bounds. -/
def bounded (width low high : Nat) : Reader Nat := do
  let found ← times width (one (isDigitOf 10))
  let n := numberOf 10 found
  if low ≤ n ∧ n ≤ high then pure n else failure

def date : Reader Date := do
  let year ← bounded 4 0 9999
  char '-'
  let month ← bounded 2 1 12
  char '-'
  let day ← bounded 2 1 (daysIn year month)
  pure { year, month, day }

/-- Digits of a second behind the point; those after the ninth are left out. -/
def nanoseconds : Reader Nat := do
  char '.'
  let first ← one (isDigitOf 10)
  let others ← run (isDigitOf 10)
  pure (numberOf 10 ((first :: others ++ List.replicate 9 '0').take 9))

/-- The second of a time of day and its fraction in nanoseconds. -/
def seconds : Reader (Nat × Nat) := do
  char ':'
  let second ← bounded 2 0 60
  let fraction ← option nanoseconds
  pure (second, fraction.getD 0)

/-- A time of day, which is at the start of its minute if it names no second. -/
def clock : Reader Clock := do
  let hour ← bounded 2 0 23
  char ':'
  let minute ← bounded 2 0 59
  let found ← option seconds
  let (second, nanosecond) := found.getD (0, 0)
  pure { hour, minute, second, nanosecond }

def numericOffset : Reader Int := do
  let mark ← one fun c => c == '+' || c == '-'
  let hour ← bounded 2 0 23
  char ':'
  let minute ← bounded 2 0 59
  let minutes : Int := (60 * hour + minute : Nat)
  pure (if mark == '-' then -minutes else minutes)

def offset : Reader Int := (do char 'Z' <|> char 'z'; pure 0) <|> numericOffset

def clockAfterDate : Reader Clock := do
  let _ ← one fun c => c == 'T' || c == 't' || c == ' '
  clock

def datedMoment : Reader Moment := do
  let day ← date
  let time ← option clockAfterDate
  match time with
  | none => pure (.date day)
  | some time => do
    let minutes ← option offset
    pure (minutes.elim (.unzoned day time) (.zoned day time))

def moment : Reader Moment := datedMoment <|> Moment.clock <$> clock

end EntityMapper.Toml
