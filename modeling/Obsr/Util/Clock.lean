/-
# The clock

`clock` reads the time of the system through an offset, which it takes from the
quickest exchange with a server so far. Times are in milliseconds.
-/

import Mathlib

namespace Obsr

/-- The clock of a program; `time_now` is given to it. -/
structure Clock where
  offset : ℤ := 0
  rtt2 : ℤ := 2 ^ 63 - 1
  deriving DecidableEq, Repr

namespace Clock

def now (c : Clock) (timeNow : ℤ) : ℤ := timeNow - c.offset

/-- Whether the clock took the time of the other side; the division truncates. -/
def sync (c : Clock) (timeNow localTime remoteTime : ℤ) : Bool × Clock :=
  let now := c.now timeNow
  let rtt2 := (now - localTime).tdiv 2
  if rtt2 ≥ c.rtt2 then (false, c)
  else (true, { offset := remoteTime + rtt2 - now, rtt2 })

def adjustTime (c : Clock) (time : ℤ) : ℤ := time - c.offset

end Clock

end Obsr
